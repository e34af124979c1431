import FeatureLines.Json.Reader
import FeatureLines.Proofs.Json.Numbers
import FeatureLines.Proofs.Json.Strings

/-!
# Reading on

`Schema.readFrom` is what reading a text comes to from where the reading stands.
Its laws say how the reading passes white space, words, strings and numbers as a
whole, so that nothing behind them looks at single characters again. They are
equations between outcomes, faults included.
-/

namespace FeatureLines.Json

/-- Whether the reading stands where white space may stand. -/
def State.betweenTokens {σ : Type} : State σ → Bool
  | .key _ _ _ _ | .quoted _ _ _ | .number _ _ _ | .word _ _ _ _ _ => false
  | _ => true

namespace Schema

variable {σ : Type} (schema : Schema σ)

/-- What reading a text comes to from where the reading stands. -/
def readFrom (state : State σ) (text : Text) : Except Fault Value :=
  match schema.run state text with
  | .error fault => .error fault
  | .ok state => schema.finish state

/-- What reading a text comes to behind a step. -/
def readOn (result : Except Fault (State σ)) (text : Text) : Except Fault Value :=
  match result with
  | .error fault => .error fault
  | .ok state => schema.readFrom state text

theorem read_eq_readFrom (place : σ) (text : Text) :
    schema.read place text = schema.readFrom (.value place []) text := rfl

@[simp] theorem readFrom_nil (state : State σ) : schema.readFrom state [] = schema.finish state :=
  rfl

theorem readFrom_cons (state : State σ) (c : Char) (text : Text) :
    schema.readFrom state (c :: text) = schema.readOn (schema.step state c) text := by
  rw [readFrom, run]
  cases schema.step state c <;> rfl

@[simp] theorem readOn_ok (state : State σ) (text : Text) :
    schema.readOn (.ok state) text = schema.readFrom state text := rfl

@[simp] theorem readOn_error (fault : Fault) (text : Text) :
    schema.readOn (.error fault) text = .error fault := rfl

/-- A reading that goes on behind a check has passed it. -/
theorem readOn_ite_eq_ok_iff {check : Prop} [Decidable check] {state : State σ} {fault : Fault}
    {text : Text} {w : Value} :
    schema.readOn (if check then .ok state else .error fault) text = .ok w ↔
      check ∧ schema.readFrom state text = .ok w := by
  by_cases h : check
  · rw [if_pos h]
    exact ⟨fun hread => ⟨h, hread⟩, fun hread => hread.2⟩
  · rw [if_neg h]
    exact ⟨fun hread => (nomatch hread), fun hread => absurd hread.1 h⟩

/-! ## White space -/

/-- White space does not move the reading. -/
def Rests (state : State σ) : Prop := ∀ c, isSpace c = true → schema.step state c = .ok state

theorem rests (state : State σ) (h : state.betweenTokens = true) :
    schema.Rests state := by
  intro c hc
  cases state with
  | key => cases h
  | quoted => cases h
  | number => cases h
  | word => cases h
  | _ => simp only [step, stepToken, hc, if_true]

variable {schema}

theorem Rests.readFrom_append {state : State σ} (h : schema.Rests state) {a : Text}
    (spaces : Spaces a) (text : Text) :
    schema.readFrom state (a ++ text) = schema.readFrom state text := by
  induction a with
  | nil => rfl
  | cons c a ih =>
    rw [List.cons_append, readFrom_cons, h c (spaces c (by simp)), readOn_ok]
    exact ih fun d hd => spaces d (by simp [hd])

/-- A text is white space and something else. -/
theorem exists_spaces (text : Text) :
    ∃ a rest, text = a ++ rest ∧ Spaces a ∧ ∀ c, rest.head? = some c → isSpace c = false := by
  induction text with
  | nil => exact ⟨[], [], rfl, by simp [Spaces], by simp⟩
  | cons c text ih =>
    cases hspace : isSpace c with
    | false =>
      refine ⟨[], c :: text, rfl, by simp [Spaces], ?_⟩
      rintro _ ⟨⟩
      exact hspace
    | true =>
      obtain ⟨a, rest, rfl, spaces, hrest⟩ := ih
      refine ⟨c :: a, rest, rfl, ?_, hrest⟩
      intro d hd
      rcases List.mem_cons.mp hd with rfl | hd
      · exact hspace
      · exact spaces d hd

/-- Where more is needed, there is a character behind the white space. -/
theorem Rests.exists_of_readFrom {state : State σ} (h : schema.Rests state)
    (needsMore : schema.finish state = .error .truncated) {text : Text} {w : Value}
    (hread : schema.readFrom state text = .ok w) :
    ∃ a c text', text = a ++ c :: text' ∧ Spaces a ∧ isSpace c = false
      ∧ schema.readOn (schema.step state c) text' = .ok w := by
  obtain ⟨a, rest, rfl, spaces, hrest⟩ := exists_spaces text
  rw [h.readFrom_append spaces] at hread
  cases rest with
  | nil => rw [readFrom_nil, needsMore] at hread; cases hread
  | cons c rest => exact ⟨a, c, rest, rfl, spaces, hrest c rfl, by rwa [readFrom_cons] at hread⟩

variable (schema)

/-! ## Words -/

theorem readFrom_word (place : σ) (value : Value) (next : Char) (rest : Text)
    (stack : List (Frame σ)) (text : Text) :
    schema.readFrom (.word place value next rest stack) (next :: (rest ++ text)) =
      schema.readOn (schema.scalar place value stack) text := by
  induction rest generalizing next with
  | nil =>
    rw [readFrom_cons]
    simp only [step, stepToken, ne_eq, not_true_eq_false, if_false, List.nil_append]
  | cons c rest ih =>
    rw [readFrom_cons]
    simp only [step, stepToken, ne_eq, not_true_eq_false, if_false]
    exact ih c

theorem exists_of_readFrom_word {place : σ} {value : Value} {next : Char} {rest : Text}
    {stack : List (Frame σ)} {text : Text} {w : Value}
    (h : schema.readFrom (.word place value next rest stack) text = .ok w) :
    ∃ text', text = next :: (rest ++ text')
      ∧ schema.readOn (schema.scalar place value stack) text' = .ok w := by
  induction rest generalizing next text with
  | nil =>
    cases text with
    | nil => cases h
    | cons c text =>
      rw [readFrom_cons] at h
      by_cases hc : c = next
      · subst hc
        simp only [step, stepToken, ne_eq, not_true_eq_false, if_false] at h
        exact ⟨text, rfl, h⟩
      · simp only [step, stepToken, ne_eq, hc, not_false_eq_true, if_true] at h
        cases h
  | cons d rest ih =>
    cases text with
    | nil => cases h
    | cons c text =>
      rw [readFrom_cons] at h
      by_cases hc : c = next
      · subst hc
        simp only [step, stepToken, ne_eq, not_true_eq_false, if_false] at h
        obtain ⟨text', rfl, hread⟩ := ih h
        exact ⟨text', rfl, hread⟩
      · simp only [step, stepToken, ne_eq, hc, not_false_eq_true, if_true] at h
        cases h

/-! ## Strings -/

/-- What reading comes to behind a string. -/
def afterQuoted (behind : Text → Except Fault (State σ)) : QuotedEnd → Except Fault Value
  | .closed text rest => schema.readOn (behind text) rest
  | .refused => .error .malformed
  | .unfinished => .error .truncated

theorem readFrom_quoted (place : σ) (scan : QuotedScan) (stack : List (Frame σ)) (text : Text) :
    schema.readFrom (.quoted place scan stack) text =
      schema.afterQuoted (fun t => schema.scalar place (.text t) stack)
        (scan.read (!schema.skips place) text) := by
  induction text generalizing scan with
  | nil => rfl
  | cons c text ih =>
    rw [readFrom_cons, QuotedScan.read_cons]
    simp only [step, stepToken]
    cases scan.step (!schema.skips place) c with
    | more scan => exact ih scan
    | closed t => rfl
    | refused => rfl

theorem readFrom_key (place : σ) (members : List (Text × Value)) (scan : QuotedScan)
    (stack : List (Frame σ)) (text : Text) :
    schema.readFrom (.key place members scan stack) text =
      schema.afterQuoted (fun key => schema.closeKey place members key stack)
        (scan.read (!schema.skips place) text) := by
  induction text generalizing scan with
  | nil => rfl
  | cons c text ih =>
    rw [readFrom_cons, QuotedScan.read_cons]
    simp only [step, stepToken]
    cases scan.step (!schema.skips place) c with
    | more scan => exact ih scan
    | closed t => rfl
    | refused => rfl

/-- A key that may stand at its place is read up to the value behind its colon. -/
theorem readFrom_nextKey_of_spelling {place next : σ} {members : List (Text × Value)}
    {key a k b : Text} (before : Spaces a)
    (spellsKey : StringSpelling (!schema.skips place) key k) (beforeColon : Spaces b)
    (hmember : schema.member place members key = some next) (stack : List (Frame σ))
    (text : Text) :
    schema.readFrom (.nextKey place members stack) (a ++ '"' :: (k ++ '"' :: (b ++ ':' :: text))) =
      schema.readFrom (.value next (.member place members key :: stack)) text := by
  rw [(schema.rests (.nextKey place members stack) rfl).readFrom_append before, readFrom_cons]
  show schema.readFrom (.key place members .start stack) _ = _
  rw [readFrom_key, QuotedScan.read_start_eq_closed_iff.mpr ⟨k, spellsKey, rfl⟩, afterQuoted,
    closeKey, hmember, readOn_ok,
    (schema.rests (.colon place members key next stack) rfl).readFrom_append beforeColon,
    readFrom_cons]
  rfl

/-! ## Numbers -/

/-- What reading comes to behind a number. -/
def afterNumber (place : σ) (stack : List (Frame σ)) : NumberEnd → Except Fault Value
  | .stopped number rest => schema.readOn (schema.closeNumber place number stack) rest
  | .refused => .error .malformed
  | .unfinished => .error (if schema.skips place then .malformed else .truncated)

theorem step_deliver (value : Value) (stack : List (Frame σ)) (c : Char) :
    schema.step (deliver value stack) c = schema.stepToken (deliver value stack) c := by
  rcases stack with _ | ⟨frame, stack⟩
  · rfl
  · cases frame <;> rfl

theorem finish_deliver (value : Value) (stack : List (Frame σ)) :
    schema.finish (deliver value stack) = finished (deliver value stack) := by
  rcases stack with _ | ⟨frame, stack⟩
  · rfl
  · cases frame <;> rfl

theorem closeNumber_cases (place : σ) (number : Number) (stack : List (Frame σ)) :
    schema.closeNumber place number stack = .ok (deliver (.number number) stack)
      ∨ ∃ fault, schema.closeNumber place number stack = .error fault := by
  rw [closeNumber, scalar]
  split
  · split
    · exact .inl rfl
    · exact .inr ⟨_, rfl⟩
  · exact .inr ⟨_, rfl⟩

/-- The character that ends a number is taken by what is around it, as if it had come behind. -/
theorem readFrom_number (place : σ) (scan : NumberScan) (stack : List (Frame σ)) (text : Text) :
    schema.readFrom (.number place scan stack) text =
      schema.afterNumber place stack (scan.read text) := by
  induction text generalizing scan with
  | nil =>
    rw [readFrom_nil, finish, NumberScan.read]
    by_cases hend : scan.phase.mayEnd
    · rw [if_pos hend, if_pos hend, afterNumber]
      rcases schema.closeNumber_cases place scan.value stack with hclose | ⟨fault, hclose⟩
      · rw [hclose, readOn_ok, readFrom_nil, finish_deliver]
      · rw [hclose, readOn_error]
    · rw [if_neg hend, if_neg hend, afterNumber]
      split <;> rfl
  | cons c text ih =>
    rw [readFrom_cons, NumberScan.read_cons]
    simp only [step]
    cases scan.step c with
    | more scan => exact ih scan
    | refused => rfl
    | ended =>
      simp only [afterNumber]
      rcases schema.closeNumber_cases place scan.value stack with hclose | ⟨fault, hclose⟩
      · rw [hclose, readOn_ok, readFrom_cons, step_deliver]
      · rw [hclose, readOn_error, readOn_error]

end Schema

end FeatureLines.Json
