import FeatureLines.Text.Lines

/-!
# What a text is split into

`SplitsInto` says which lines a text has by saying how the text is put together
from them: each line is followed by its line end, and only the last may stand
without one, if it is not empty. `splitsInto_iff` says that `linesOf` finds just
these lines, so every text has lines and no text has others.

A carriage return is part of a line end only directly before the line feed. The
constructor for a bare line feed therefore asks that the line does not end with
one; without this a text would split in two ways.
-/

namespace FeatureLines

/-- A text is put together from these lines and their line ends. -/
inductive SplitsInto : Text → List Text → Prop where
  | nil : SplitsInto [] []
  /-- What stands behind the last line feed, if anything does. -/
  | last {line : Text} (nonempty : line ≠ []) (unbroken : '\n' ∉ line) : SplitsInto line [line]
  | feed {line rest : Text} {lines : List Text} (unbroken : '\n' ∉ line)
      (bare : line.getLast? ≠ some '\r') (more : SplitsInto rest lines) :
      SplitsInto (line ++ '\n' :: rest) (line :: lines)
  | returnFeed {line rest : Text} {lines : List Text} (unbroken : '\n' ∉ line)
      (more : SplitsInto rest lines) :
      SplitsInto (line ++ '\r' :: '\n' :: rest) (line :: lines)

/-! ## The lines that are found -/

/-- A character that begins no line end goes in front of the first line. -/
theorem linesOf_cons {c : Char} {rest : Text} (hfeed : c ≠ '\n')
    (hreturn : c = '\r' → rest.head? ≠ some '\n') :
    linesOf (c :: rest) = consLine c (linesOf rest) := by
  have hplain : ∀ rest', c = '\r' → rest = '\n' :: rest' → False := by
    rintro rest' hc rfl
    exact hreturn hc rfl
  rw [linesOf.eq_3 c rest hplain, if_neg hfeed]

theorem linesOf_feed (rest : Text) : linesOf ('\n' :: rest) = [] :: linesOf rest := by
  have hplain : ∀ rest', '\n' = '\r' → rest = '\n' :: rest' → False := by
    intro _ h _
    cases h
  rw [linesOf.eq_3 _ rest hplain, if_pos rfl]

theorem linesOf_returnFeed (rest : Text) :
    linesOf ('\r' :: '\n' :: rest) = [] :: linesOf rest := by
  rw [linesOf]

/-- A line in front of something that does not go on with it, given what is found behind it. The
hypothesis on `rest` keeps a carriage return at the end of the line apart from a line feed. -/
theorem linesOf_append {line rest : Text} {lines : List Text} (unbroken : '\n' ∉ line)
    (bare : line.getLast? = some '\r' → rest.head? ≠ some '\n')
    (hrest : linesOf rest = [] :: lines) : linesOf (line ++ rest) = line :: lines := by
  induction line with
  | nil => exact hrest
  | cons c line ih =>
    obtain ⟨hc, hline⟩ := not_or.mp (mt List.mem_cons.mpr unbroken)
    have hreturn : c = '\r' → (line ++ rest).head? ≠ some '\n' := by
      rintro rfl
      cases line with
      | nil => exact bare rfl
      | cons d line =>
        rintro hd
        obtain rfl := Option.some.inj hd
        exact hline List.mem_cons_self
    have htail : line.getLast? = some '\r' → rest.head? ≠ some '\n' := by
      intro h
      cases line with
      | nil => cases h
      | cons d line => exact bare (by rw [List.getLast?_cons_cons]; exact h)
    rw [List.cons_append, linesOf_cons (Ne.symm hc) hreturn, ih hline htail]
    rfl

theorem linesOf_last {line : Text} (nonempty : line ≠ []) (unbroken : '\n' ∉ line) :
    linesOf line = [line] := by
  induction line with
  | nil => exact absurd rfl nonempty
  | cons c line ih =>
    obtain ⟨hc, hline⟩ := not_or.mp (mt List.mem_cons.mpr unbroken)
    have hreturn : c = '\r' → line.head? ≠ some '\n' := by
      rintro - hd
      obtain ⟨line, rfl⟩ := List.head?_eq_some_iff.mp hd
      exact hline List.mem_cons_self
    rw [linesOf_cons (Ne.symm hc) hreturn]
    cases line with
    | nil => rfl
    | cons d line => rw [ih (by simp) hline]; rfl

theorem SplitsInto.linesOf_eq {text : Text} {lines : List Text} (h : SplitsInto text lines) :
    linesOf text = lines := by
  induction h with
  | nil => rfl
  | last nonempty unbroken => exact linesOf_last nonempty unbroken
  | @feed line rest lines unbroken bare _ ih =>
    have hrest : linesOf ('\n' :: rest) = [] :: lines := by rw [linesOf_feed, ih]
    exact linesOf_append unbroken (fun h => absurd h bare) hrest
  | @returnFeed line rest lines unbroken _ ih =>
    have hrest : linesOf ('\r' :: '\n' :: rest) = [] :: lines := by rw [linesOf_returnFeed, ih]
    exact linesOf_append unbroken (fun _ h => nomatch h) hrest

/-! ## Every text has lines -/

/-- A character that begins no line end goes in front of the first line. -/
theorem SplitsInto.consLine {c : Char} {rest : Text} {lines : List Text}
    (h : SplitsInto rest lines) (hfeed : c ≠ '\n')
    (hreturn : c = '\r' → rest.head? ≠ some '\n') :
    SplitsInto (c :: rest) (consLine c lines) := by
  have hcons {line : Text} (unbroken : '\n' ∉ line) : '\n' ∉ c :: line := by
    intro hmem
    rcases List.mem_cons.mp hmem with h | h
    · exact hfeed h.symm
    · exact unbroken h
  cases h with
  | nil => exact .last (by simp) (hcons (by simp))
  | last nonempty unbroken => exact .last (by simp) (hcons unbroken)
  | @feed line rest lines unbroken bare more =>
    refine .feed (hcons unbroken) ?_ more
    cases line with
    | nil =>
      rintro hlast
      exact hreturn (Option.some.inj hlast) rfl
    | cons d line => rwa [List.getLast?_cons_cons]
  | returnFeed unbroken more => exact .returnFeed (hcons unbroken) more

theorem splitsInto_linesOf (text : Text) : SplitsInto text (linesOf text) := by
  fun_induction linesOf text with
  | case1 => exact .nil
  | case2 rest ih => exact @SplitsInto.returnFeed [] rest _ (by simp) ih
  | case3 rest hr ih => exact @SplitsInto.feed [] rest _ (by simp) (by simp) ih
  | case4 c rest hr hc ih =>
    refine ih.consLine hc ?_
    rintro rfl hhead
    obtain ⟨rest, rfl⟩ := List.head?_eq_some_iff.mp hhead
    exact hr _ rfl rfl

/-- The lines of a text are those that it is put together from. -/
theorem splitsInto_iff {text : Text} {lines : List Text} :
    SplitsInto text lines ↔ lines = linesOf text := by
  constructor
  · intro h
    exact h.linesOf_eq.symm
  · rintro rfl
    exact splitsInto_linesOf text

end FeatureLines
