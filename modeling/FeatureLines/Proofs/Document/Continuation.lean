import FeatureLines.Document.Classifier

/-!
# What a continuation continues

A classifier remembers one thing of the lines behind it: the step in force. It
is hidden, but it can be read off the lines reported so far. `stepBehind`
computes it from them: look back for the nearest line that is not a tag; if that
line is a given, when or then, this step is in force, and otherwise none is.

The invariant of a run is `step_after`: the step that the classifier holds is
`stepBehind` of what it has reported. It rests on `nextStep_stepBehind`, one case
per kind: a continuation is reported under the kind of its step, so for the
lines after it the reported line says the same as the step it continues.

`classifyAll_getElem?_eq_kindBehind` puts both together: every line of a run is
reported as its own entry and the earlier reported lines say, and nothing else.
-/

namespace FeatureLines

/-! ## The nearest line that is not a tag -/

/-- The nearest of the reported lines, looking back from their end, that is not a tag. -/
def nearestUntagged (reported : List RecognisedLine) : Option RecognisedLine :=
  reported.reverse.find? fun line => line.kind != .tag

/-- The kind of a line behind these reported lines whose entry has this kind. -/
def kindBehind (reported : List RecognisedLine) : LineKind → LineKind
  | .continuation =>
    match nearestUntagged reported with
    | some nearest => if nearest.kind ∈ LineKind.steps then nearest.kind else .continuation
    | none => .continuation
  | kind => kind

/-- The given, when or then in force behind these reported lines. -/
def stepBehind (reported : List RecognisedLine) : Option LineKind :=
  match nearestUntagged reported with
  | some nearest => if nearest.kind ∈ LineKind.steps then some nearest.kind else none
  | none => none

theorem nearestUntagged_concat (reported : List RecognisedLine) (line : RecognisedLine) :
    nearestUntagged (reported ++ [line]) =
      if line.kind = .tag then nearestUntagged reported else some line := by
  unfold nearestUntagged
  rw [List.reverse_append, List.reverse_singleton, List.singleton_append]
  by_cases h : line.kind = .tag
  · rw [List.find?_cons_of_neg (by simp [h]), if_pos h]
  · rw [List.find?_cons_of_pos (by simp [h]), if_neg h]

theorem stepBehind_concat (reported : List RecognisedLine) (line : RecognisedLine) :
    stepBehind (reported ++ [line]) =
      if line.kind = .tag then stepBehind reported
      else if line.kind ∈ LineKind.steps then some line.kind else none := by
  unfold stepBehind
  rw [nearestUntagged_concat]
  by_cases h : line.kind = .tag
  · rw [if_pos h, if_pos h]
  · rw [if_neg h, if_neg h]

theorem mem_steps_of_stepBehind {reported : List RecognisedLine} {kind : LineKind}
    (h : stepBehind reported = some kind) : kind ∈ LineKind.steps := by
  unfold stepBehind at h
  split at h
  · next nearest _ =>
    split at h
    · next hstep =>
      obtain rfl := Option.some.inj h
      exact hstep
    · cases h
  · cases h

/-- A continuation takes the step in force, if there is one. -/
theorem resolveKind_stepBehind (reported : List RecognisedLine) (kind : LineKind) :
    resolveKind (stepBehind reported) kind = kindBehind reported kind := by
  cases kind with
  | continuation =>
    show (stepBehind reported).getD .continuation = _
    unfold stepBehind kindBehind
    cases nearestUntagged reported with
    | none => rfl
    | some nearest => by_cases h : nearest.kind ∈ LineKind.steps <;> simp [h]
  | _ => rfl

/-- A reported line changes the step in force as its entry does. The case that matters is that
of a continuation: what is reported of it is the kind of its step, so the step stays. -/
theorem nextStep_stepBehind (reported : List RecognisedLine) (line : RecognisedLine)
    {kind : LineKind} (h : line.kind = resolveKind (stepBehind reported) kind) :
    nextStep (stepBehind reported) kind = stepBehind (reported ++ [line]) := by
  rw [stepBehind_concat]
  cases kind with
  | continuation =>
    show stepBehind reported = _
    cases hstep : stepBehind reported with
    | none =>
      have hline : line.kind = .continuation := by rw [h, hstep]; rfl
      rw [hline]; rfl
    | some step =>
      have hline : line.kind = step := by rw [h, hstep]; rfl
      have hmem := mem_steps_of_stepBehind hstep
      have hne : step ≠ .tag := fun h => absurd (h ▸ hmem) (by decide)
      rw [hline, if_neg hne, if_pos hmem]
  | _ =>
    rw [h, resolveKind_of_ne_continuation (by decide)]
    rfl

namespace Classifier

/-! ## Runs -/

/-- The classifier behind some lines, the first of them being the line with this number. -/
def after (classifier : Classifier) (number : Nat) : List Text → Classifier
  | [] => classifier
  | line :: lines => after (classifier.classify number line).2 (number + 1) lines

theorem classifyAll_append (classifier : Classifier) (number : Nat) (a b : List Text) :
    classifier.classifyAll number (a ++ b) =
      classifier.classifyAll number a ++
        (classifier.after number a).classifyAll (number + a.length) b := by
  induction a generalizing classifier number with
  | nil => rfl
  | cons line a ih =>
    simp only [List.cons_append, classifyAll, after, ih, List.length_cons]
    congr 3
    omega

@[simp] theorem length_classifyAll (classifier : Classifier) (number : Nat)
    (lines : List Text) : (classifier.classifyAll number lines).length = lines.length := by
  induction lines generalizing classifier number with
  | nil => rfl
  | cons line lines ih => simp [classifyAll, ih]

@[simp] theorem after_table (classifier : Classifier) (number : Nat) (lines : List Text) :
    (classifier.after number lines).table = classifier.table := by
  induction lines generalizing classifier number with
  | nil => rfl
  | cons line lines ih => rw [after, ih, classify_table]

theorem recognisedLines_cons (classifier : Classifier) (number : Nat) (line : Text)
    (lines : List Text) :
    classifier.recognisedLines number (line :: lines) =
      (classifier.classify number line).1.toList ++
        (classifier.classify number line).2.recognisedLines (number + 1) lines := by
  simp only [recognisedLines, classifyAll]
  cases (classifier.classify number line).1 <;> rfl

/-- What one line does: it is reported under its lead with the kind that the step in force
gives it, and moves that step. -/
theorem classify_of_recognise {classifier : Classifier} {line : Text} {entry : Entry}
    {rest : Text} (h : classifier.table.recognise line = some (entry, rest)) (number : Nat) :
    classifier.classify number line =
      (some ⟨number, resolveKind classifier.step entry.kind, entry.lead, trim rest⟩,
        { classifier with step := nextStep classifier.step entry.kind }) := by
  simp [classify, h]

/-- The step that a classifier holds stays the one that the reported lines show. The induction
needs it behind any lines reported before the run, since each line of the run becomes one. -/
theorem step_after_of_step {classifier : Classifier} {reported : List RecognisedLine}
    (h : classifier.step = stepBehind reported) (number : Nat) (lines : List Text) :
    (classifier.after number lines).step =
      stepBehind (reported ++ classifier.recognisedLines number lines) := by
  induction lines generalizing classifier reported number with
  | nil => simpa [recognisedLines, classifyAll, after] using h
  | cons line lines ih =>
    simp only [after]
    cases hrec : classifier.table.recognise line with
    | none =>
      rw [recognisedLines_cons, classify_of_recognise_eq_none hrec]
      exact ih h (number + 1)
    | some found =>
      obtain ⟨entry, rest⟩ := found
      rw [recognisedLines_cons, classify_of_recognise hrec, Option.toList_some,
        ← List.append_assoc]
      refine ih ?_ (number + 1)
      show nextStep classifier.step entry.kind = _
      rw [h]
      exact nextStep_stepBehind reported _ rfl

theorem step_after (table : Table) (number : Nat) (lines : List Text) :
    ((ofTable table).after number lines).step =
      stepBehind ((ofTable table).recognisedLines number lines) := by
  have hstart : (ofTable table).step = stepBehind [] := rfl
  exact step_after_of_step hstart number lines

/-- What a run has reported of its first lines is the run over these lines alone. -/
theorem take_classifyAll (classifier : Classifier) (number : Nat) (lines : List Text) (i : Nat) :
    (classifier.classifyAll number lines).take i =
      classifier.classifyAll number (lines.take i) := by
  rcases Nat.le_total i lines.length with hi | hi
  · have hlen : (classifier.classifyAll number (lines.take i)).length = i := by
      rw [length_classifyAll, List.length_take_of_le hi]
    conv => lhs; rw [← List.take_append_drop i lines]
    rw [classifyAll_append, List.take_append_of_le_length (Nat.le_of_eq hlen.symm),
      List.take_of_length_le (Nat.le_of_eq hlen)]
  · rw [List.take_of_length_le hi, List.take_of_length_le (by simpa using hi)]

/-- Every line of a run is reported as its own entry and the earlier reported lines say: under
the kind of its entry, or, for a continuation, under that of the nearest earlier reported line
that is not a tag, if this is a given, when or then. The step that the classifier holds in front of
the line is the one that the earlier reported lines show. -/
theorem classifyAll_getElem?_eq_kindBehind (table : Table) (number : Nat) (lines : List Text)
    (i : Nat) :
    let answers := (ofTable table).classifyAll number lines
    let earlier := (answers.take i).filterMap id
    answers[i]? =
        (lines[i]?.map fun line =>
          (table.recognise line).map fun (entry, rest) =>
            ⟨number + i, kindBehind earlier entry.kind, entry.lead, trim rest⟩)
      ∧ ((ofTable table).after number (lines.take i)).step = stepBehind earlier := by
  intro answers earlier
  have hearlier : earlier = (ofTable table).recognisedLines number (lines.take i) := by
    rw [recognisedLines, ← take_classifyAll]
  have hstep := step_after table number (lines.take i)
  rw [← hearlier] at hstep
  refine ⟨?_, hstep⟩
  rcases Nat.lt_or_ge i lines.length with hi | hi
  · have hlen : (lines.take i).length = i := List.length_take_of_le (Nat.le_of_lt hi)
    have hrun : ((ofTable table).classifyAll number (lines.take i)).length = i := by
      rw [length_classifyAll, hlen]
    have hsplit : lines = lines.take i ++ lines[i] :: lines.drop (i + 1) := by simp
    have hanswer : answers[i]? =
        some (((ofTable table).after number (lines.take i)).classify (number + i) lines[i]).1 := by
      show ((ofTable table).classifyAll number lines)[i]? = _
      conv => lhs; rw [hsplit]
      rw [classifyAll_append, List.getElem?_append_right (Nat.le_of_eq hrun), hrun, hlen,
        Nat.sub_self]
      rfl
    have htable : ((ofTable table).after number (lines.take i)).table = table :=
      after_table _ _ _
    rw [hanswer, List.getElem?_eq_getElem hi, Option.map_some]
    cases hrec : table.recognise lines[i] with
    | none => rw [classify_of_recognise_eq_none (by rw [htable]; exact hrec)]; rfl
    | some found =>
      obtain ⟨entry, rest⟩ := found
      rw [classify_of_recognise (by rw [htable]; exact hrec), hstep, resolveKind_stepBehind]
      rfl
  · rw [List.getElem?_eq_none hi, List.getElem?_eq_none (by simpa [answers] using hi)]
    rfl

end Classifier

end FeatureLines
