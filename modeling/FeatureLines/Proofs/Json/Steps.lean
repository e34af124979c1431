import FeatureLines.Proofs.Json.Values

/-!
# What a step can do

`Schema.Moves` lists where a character can lead, with one constructor for each
way, and `moves_of_step` says that a step leads nowhere else. What is said of
single characters later on is said of these cases.

No step finds a text cut off. A text that is cut off has therefore been read to
its end (`exists_run_of_truncated`), and so has every start of it.
-/

namespace FeatureLines.Json

namespace Schema

variable {σ : Type} {schema : Schema σ}

/-- The character begins a value at the place. -/
inductive Starts (schema : Schema σ) (place : σ) (stack : List (Frame σ)) :
    Char → State σ → Prop where
  | array (takes : schema.takesArray place = true) (room : schema.mayOpen place stack = true) :
      Starts schema place stack '[' (.firstItem place stack)
  | object (takes : schema.takesObject place = true) (room : schema.mayOpen place stack = true) :
      Starts schema place stack '\x7b' (.firstKey place stack)
  | text : Starts schema place stack '"' (.quoted place .start stack)
  | null : Starts schema place stack 'n' (.word place .null 'u' ['l', 'l'] stack)
  | true : Starts schema place stack 't' (.word place (.bool true) 'r' ['u', 'e'] stack)
  | false : Starts schema place stack 'f' (.word place (.bool false) 'a' ['l', 's', 'e'] stack)
  | number {c : Char} {scan : NumberScan} (start : NumberScan.start? c = some scan) :
      Starts schema place stack c (.number place scan stack)

/-- The character leads from one state to the other. -/
inductive Moves (schema : Schema σ) : State σ → Char → State σ → Prop where
  | space {state : State σ} {c : Char} (between : state.betweenTokens = true)
      (isSpace : isSpace c = true) : Moves schema state c state
  | value {place : σ} {stack : List (Frame σ)} {c : Char} {next : State σ}
      (starts : schema.Starts place stack c next) : Moves schema (.value place stack) c next
  | firstItem {place behind : σ} {stack : List (Frame σ)} {c : Char} {next : State σ}
      (item : schema.item place [] = some behind)
      (starts : schema.Starts behind (.item place [] :: stack) c next) :
      Moves schema (.firstItem place stack) c next
  | emptyArray {place : σ} {stack : List (Frame σ)} :
      Moves schema (.firstItem place stack) ']' (deliver (.array []) stack)
  | closeArray {place : σ} {items : List Value} {stack : List (Frame σ)} :
      Moves schema (.afterItem place items stack) ']' (deliver (.array items.reverse) stack)
  | nextItem {place behind : σ} {items : List Value} {stack : List (Frame σ)}
      (item : schema.item place items = some behind) :
      Moves schema (.afterItem place items stack) ',' (.value behind (.item place items :: stack))
  | emptyObject {place : σ} {stack : List (Frame σ)} :
      Moves schema (.firstKey place stack) '\x7d' (deliver (.object []) stack)
  | firstKey {place : σ} {stack : List (Frame σ)} :
      Moves schema (.firstKey place stack) '"' (.key place [] .start stack)
  | nextKey {place : σ} {members : List (Text × Value)} {stack : List (Frame σ)} :
      Moves schema (.nextKey place members stack) '"' (.key place members .start stack)
  | colon {place next : σ} {members : List (Text × Value)} {key : Text} {stack : List (Frame σ)} :
      Moves schema (.colon place members key next stack) ':'
        (.value next (.member place members key :: stack))
  | closeObject {place : σ} {members : List (Text × Value)} {stack : List (Frame σ)} :
      Moves schema (.afterMember place members stack) '\x7d'
        (deliver (.object members.reverse) stack)
  | nextMember {place : σ} {members : List (Text × Value)} {stack : List (Frame σ)} :
      Moves schema (.afterMember place members stack) ',' (.nextKey place members stack)
  | key {place : σ} {members : List (Text × Value)} {scan later : QuotedScan}
      {stack : List (Frame σ)} {c : Char}
      (more : scan.step (!schema.skips place) c = .more later) :
      Moves schema (.key place members scan stack) c (.key place members later stack)
  | keyClosed {place next : σ} {members : List (Text × Value)} {scan : QuotedScan} {key : Text}
      {stack : List (Frame σ)} {c : Char}
      (closed : scan.step (!schema.skips place) c = .closed key)
      (member : schema.member place members key = some next) :
      Moves schema (.key place members scan stack) c (.colon place members key next stack)
  | quoted {place : σ} {scan later : QuotedScan} {stack : List (Frame σ)} {c : Char}
      (more : scan.step (!schema.skips place) c = .more later) :
      Moves schema (.quoted place scan stack) c (.quoted place later stack)
  | quotedClosed {place : σ} {scan : QuotedScan} {text : Text} {stack : List (Frame σ)} {c : Char}
      (closed : scan.step (!schema.skips place) c = .closed text) :
      Moves schema (.quoted place scan stack) c (deliver (.text text) stack)
  | word {place : σ} {value : Value} {next later : Char} {rest : Text} {stack : List (Frame σ)} :
      Moves schema (.word place value next (later :: rest) stack) next
        (.word place value later rest stack)
  | wordClosed {place : σ} {value : Value} {next : Char} {stack : List (Frame σ)} :
      Moves schema (.word place value next [] stack) next (deliver value stack)
  | number {place : σ} {scan later : NumberScan} {stack : List (Frame σ)} {c : Char}
      (more : scan.step c = .more later) :
      Moves schema (.number place scan stack) c (.number place later stack)
  | numberEnded {place : σ} {scan : NumberScan} {stack : List (Frame σ)} {c : Char}
      {next : State σ} (ended : scan.step c = .ended)
      (moves : Moves schema (deliver (.number scan.value) stack) c next) :
      Moves schema (.number place scan stack) c next

theorem deliver_of_scalar {place : σ} {value : Value} {stack : List (Frame σ)} {next : State σ}
    (h : schema.scalar place value stack = .ok next) : next = deliver value stack := by
  unfold scalar at h
  split at h
  · exact (Except.ok.inj h).symm
  · cases h

theorem deliver_of_closeObject {place : σ} {members : List (Text × Value)} {stack : List (Frame σ)}
    {next : State σ} (h : schema.closeObject place members stack = .ok next) :
    next = deliver (.object members.reverse) stack := by
  unfold closeObject at h
  split at h
  · exact (Except.ok.inj h).symm
  · cases h

theorem exists_member_of_closeKey {place : σ} {members : List (Text × Value)} {key : Text}
    {stack : List (Frame σ)} {next : State σ}
    (h : schema.closeKey place members key stack = .ok next) :
    ∃ behind, schema.member place members key = some behind
      ∧ next = .colon place members key behind stack := by
  unfold closeKey at h
  cases hmember : schema.member place members key with
  | some behind =>
    rw [hmember] at h
    exact ⟨behind, rfl, (Except.ok.inj h).symm⟩
  | none => rw [hmember] at h; cases h

/-- What opens an array or an object may stand at the place, and there is room for it. -/
theorem opened_of_eq_ok {takes room : Bool} {opened next : State σ}
    (h : (if !takes then .error .misshapen else if room then .ok opened else .error .malformed) =
      (.ok next : Except Fault (State σ))) : takes = true ∧ room = true ∧ next = opened := by
  cases takes with
  | false => cases h
  | true =>
    cases room with
    | false => cases h
    | true =>
      cases h
      exact ⟨rfl, rfl, rfl⟩

theorem starts_of_startValue {place : σ} {stack : List (Frame σ)} {c : Char} {next : State σ}
    (h : schema.startValue place stack c = .ok next) : schema.Starts place stack c next := by
  by_cases harray : c = '['
  · rw [startValue, if_pos harray] at h
    obtain ⟨takes, room, rfl⟩ := opened_of_eq_ok h
    rw [harray]
    exact .array takes room
  by_cases hobject : c = '\x7b'
  · rw [startValue, if_neg harray, if_pos hobject] at h
    obtain ⟨takes, room, rfl⟩ := opened_of_eq_ok h
    rw [hobject]
    exact .object takes room
  rw [startValue, if_neg harray, if_neg hobject] at h
  split at h
  · next hc =>
    cases h
    rw [hc]
    exact .text
  split at h
  · next hc =>
    cases h
    rw [hc]
    exact .null
  split at h
  · next hc =>
    cases h
    rw [hc]
    exact .true
  split at h
  · next hc =>
    cases h
    rw [hc]
    exact .false
  split at h
  · next scan hstart =>
    cases h
    exact .number hstart
  · cases h

/-- Between tokens space is passed over, and all else is taken as what stands there. -/
theorem moves_of_between {state next : State σ} {c : Char} {other : Except Fault (State σ)}
    (between : state.betweenTokens = true) (hother : other = .ok next → schema.Moves state c next)
    (h : (if isSpace c then .ok state else other) = .ok next) : schema.Moves state c next := by
  by_cases hspace : isSpace c = true
  · rw [if_pos hspace] at h
    cases h
    exact .space between hspace
  · rw [if_neg hspace] at h
    exact hother h

/-- A mark is taken as the mark, and any other character as what else may stand there. -/
theorem moves_of_mark {state next : State σ} {c mark : Char} {marked other : Except Fault (State σ)}
    (hmarked : marked = .ok next → schema.Moves state mark next)
    (hother : other = .ok next → schema.Moves state c next)
    (h : (if c = mark then marked else other) = .ok next) : schema.Moves state c next := by
  by_cases hc : c = mark
  · subst hc
    rw [if_pos rfl] at h
    exact hmarked h
  · rw [if_neg hc] at h
    exact hother h

theorem moves_of_stepToken {state next : State σ} {c : Char}
    (h : schema.stepToken state c = .ok next) : schema.Moves state c next := by
  cases state with
  | value place stack => exact moves_of_between rfl (fun h => .value (starts_of_startValue h)) h
  | firstItem place stack =>
    refine moves_of_between rfl (moves_of_mark (fun h => ?_) fun h => ?_) h
    · cases h
      exact .emptyArray
    · cases hitem : schema.item place [] with
      | some behind =>
        rw [hitem] at h
        exact .firstItem hitem (starts_of_startValue h)
      | none => rw [hitem] at h; cases h
  | afterItem place items stack =>
    refine moves_of_between rfl (moves_of_mark (fun h => ?_)
      (moves_of_mark (fun h => ?_) fun h => ?_)) h
    · cases h
      exact .closeArray
    · cases hitem : schema.item place items with
      | some behind =>
        rw [hitem] at h
        cases h
        exact .nextItem hitem
      | none => rw [hitem] at h; cases h
    · cases h
  | firstKey place stack =>
    refine moves_of_between rfl (moves_of_mark (fun h => ?_)
      (moves_of_mark (fun h => ?_) fun h => ?_)) h
    · rw [deliver_of_closeObject h]
      exact .emptyObject
    · cases h
      exact .firstKey
    · cases h
  | nextKey place members stack =>
    refine moves_of_between rfl (moves_of_mark (fun h => ?_) fun h => ?_) h
    · cases h
      exact .nextKey
    · cases h
  | colon place members key behind stack =>
    refine moves_of_between rfl (moves_of_mark (fun h => ?_) fun h => ?_) h
    · cases h
      exact .colon
    · cases h
  | afterMember place members stack =>
    refine moves_of_between rfl (moves_of_mark (fun h => ?_)
      (moves_of_mark (fun h => ?_) fun h => ?_)) h
    · rw [deliver_of_closeObject h]
      exact .closeObject
    · cases h
      exact .nextMember
    · cases h
  | key place members scan stack =>
    simp only [stepToken] at h
    cases hstep : scan.step (!schema.skips place) c with
    | more later =>
      rw [hstep] at h
      cases h
      exact .key hstep
    | closed key =>
      rw [hstep] at h
      obtain ⟨behind, hmember, rfl⟩ := exists_member_of_closeKey h
      exact .keyClosed hstep hmember
    | refused => rw [hstep] at h; cases h
  | quoted place scan stack =>
    simp only [stepToken] at h
    cases hstep : scan.step (!schema.skips place) c with
    | more later =>
      rw [hstep] at h
      cases h
      exact .quoted hstep
    | closed text =>
      rw [hstep] at h
      rw [deliver_of_scalar h]
      exact .quotedClosed hstep
    | refused => rw [hstep] at h; cases h
  | word place value due rest stack =>
    simp only [stepToken] at h
    by_cases hc : c = due
    · subst hc
      rw [if_neg (not_not_intro rfl)] at h
      cases rest with
      | nil =>
        rw [deliver_of_scalar h]
        exact .wordClosed
      | cons later rest =>
        cases h
        exact .word
    · rw [if_pos hc] at h
      cases h
  | number place scan stack => cases h
  | done value => exact moves_of_between rfl (fun h => by cases h) h

/-- Whatever a step leads to is one of the moves. -/
theorem moves_of_step {state next : State σ} {c : Char} (h : schema.step state c = .ok next) :
    schema.Moves state c next := by
  cases state with
  | number place scan stack =>
    simp only [step] at h
    cases hstep : scan.step c with
    | more later =>
      rw [hstep] at h
      cases h
      exact .number hstep
    | refused => rw [hstep] at h; cases h
    | ended =>
      rw [hstep] at h
      rcases schema.closeNumber_cases place scan.value stack with hclose | ⟨fault, hclose⟩
      · simp only [hclose] at h
        exact .numberEnded hstep (moves_of_stepToken h)
      · simp only [hclose] at h
        cases h
  | _ => exact moves_of_stepToken h

/-! ## A step never finds a text cut off -/

theorem scalar_ne_truncated (place : σ) (value : Value) (stack : List (Frame σ)) :
    schema.scalar place value stack ≠ .error .truncated := by
  unfold scalar
  split <;> exact nofun

/-- Neither branch of a check finds the text cut off. -/
theorem ite_ne_truncated {check : Prop} [Decidable check] {yes no : Except Fault (State σ)}
    (hyes : yes ≠ .error .truncated) (hno : no ≠ .error .truncated) :
    (if check then yes else no) ≠ .error .truncated := by
  by_cases h : check
  · rwa [if_pos h]
  · rwa [if_neg h]

theorem startValue_ne_truncated (place : σ) (stack : List (Frame σ)) (c : Char) :
    schema.startValue place stack c ≠ .error .truncated := by
  unfold startValue
  refine ite_ne_truncated (ite_ne_truncated nofun (ite_ne_truncated nofun nofun)) ?_
  refine ite_ne_truncated (ite_ne_truncated nofun (ite_ne_truncated nofun nofun)) ?_
  refine ite_ne_truncated nofun (ite_ne_truncated nofun (ite_ne_truncated nofun
    (ite_ne_truncated nofun ?_)))
  cases NumberScan.start? c with
  | some scan => exact nofun
  | none => exact nofun

theorem closeObject_ne_truncated (place : σ) (members : List (Text × Value))
    (stack : List (Frame σ)) : schema.closeObject place members stack ≠ .error .truncated := by
  unfold closeObject
  split <;> exact nofun

theorem closeKey_ne_truncated (place : σ) (members : List (Text × Value)) (key : Text)
    (stack : List (Frame σ)) :
    schema.closeKey place members key stack ≠ .error .truncated := by
  unfold closeKey
  cases schema.member place members key with
  | some next => simp
  | none => simp

theorem stepToken_ne_truncated (state : State σ) (c : Char) :
    schema.stepToken state c ≠ .error .truncated := by
  cases state with
  | value place stack =>
    exact ite_ne_truncated nofun (startValue_ne_truncated place stack c)
  | firstItem place stack =>
    refine ite_ne_truncated nofun (ite_ne_truncated nofun ?_)
    cases schema.item place [] with
    | some next => exact startValue_ne_truncated next _ c
    | none => exact nofun
  | afterItem place items stack =>
    refine ite_ne_truncated nofun (ite_ne_truncated nofun (ite_ne_truncated ?_ nofun))
    cases schema.item place items with
    | some next => exact nofun
    | none => exact nofun
  | firstKey place stack =>
    exact ite_ne_truncated nofun (ite_ne_truncated (closeObject_ne_truncated place [] stack)
      (ite_ne_truncated nofun nofun))
  | nextKey place members stack =>
    exact ite_ne_truncated nofun (ite_ne_truncated nofun nofun)
  | colon place members key next stack =>
    exact ite_ne_truncated nofun (ite_ne_truncated nofun nofun)
  | afterMember place members stack =>
    exact ite_ne_truncated nofun (ite_ne_truncated (closeObject_ne_truncated place members stack)
      (ite_ne_truncated nofun nofun))
  | key place members scan stack =>
    simp only [stepToken]
    cases scan.step (!schema.skips place) c with
    | more later => exact nofun
    | closed key => exact closeKey_ne_truncated place members key stack
    | refused => exact nofun
  | quoted place scan stack =>
    simp only [stepToken]
    cases scan.step (!schema.skips place) c with
    | more later => exact nofun
    | closed text => exact scalar_ne_truncated place _ stack
    | refused => exact nofun
  | word place value due rest stack =>
    refine ite_ne_truncated nofun ?_
    cases rest with
    | nil => exact scalar_ne_truncated place value stack
    | cons later rest => exact nofun
  | number => exact nofun
  | done => exact ite_ne_truncated nofun nofun

theorem closeNumber_ne_truncated (place : σ) (number : Number) (stack : List (Frame σ)) :
    schema.closeNumber place number stack ≠ .error .truncated := by
  unfold closeNumber
  split
  · exact scalar_ne_truncated place _ stack
  · exact nofun

theorem step_of_not_number {state : State σ}
    (h : ∀ place scan stack, state ≠ .number place scan stack) (c : Char) :
    schema.step state c = schema.stepToken state c := by
  cases state with
  | number => exact absurd rfl (h _ _ _)
  | _ => rfl

theorem step_ne_truncated (state : State σ) (c : Char) :
    schema.step state c ≠ .error .truncated := by
  cases state with
  | number place scan stack =>
    simp only [step]
    split
    · exact nofun
    · exact nofun
    · split
      · next fault hclose =>
        rintro ⟨⟩
        exact closeNumber_ne_truncated place _ stack hclose
      · exact stepToken_ne_truncated _ c
  | _ =>
    rw [step_of_not_number nofun]
    exact stepToken_ne_truncated _ c

/-- So a text that is cut off has been read to its end. -/
theorem exists_run_of_truncated {state : State σ} {text : Text}
    (h : schema.readFrom state text = .error .truncated) :
    ∃ next, schema.run state text = .ok next := by
  induction text generalizing state with
  | nil => exact ⟨state, rfl⟩
  | cons c text ih =>
    rw [readFrom_cons] at h
    cases hstep : schema.step state c with
    | error fault =>
      rw [hstep, readOn_error] at h
      obtain rfl := Except.error.inj h
      exact absurd hstep (schema.step_ne_truncated state c)
    | ok later =>
      rw [hstep, readOn_ok] at h
      obtain ⟨next, hrun⟩ := ih h
      exact ⟨next, by rw [run, hstep]; exact hrun⟩

/-! ## Reading in parts -/

theorem exists_step_of_run_cons {state last : State σ} {c : Char} {text : Text}
    (h : schema.run state (c :: text) = .ok last) :
    ∃ next, schema.step state c = .ok next ∧ schema.run next text = .ok last := by
  rw [run] at h
  cases hstep : schema.step state c with
  | error fault => rw [hstep] at h; cases h
  | ok next =>
    rw [hstep] at h
    exact ⟨next, rfl, h⟩

theorem readFrom_append_of_run {state next : State σ} {a : Text} (h : schema.run state a = .ok next)
    (b : Text) : schema.readFrom state (a ++ b) = schema.readFrom next b := by
  rw [readFrom, run_append, h]
  rfl

theorem exists_run_of_run_append {state next : State σ} {a b : Text}
    (h : schema.run state (a ++ b) = .ok next) :
    ∃ between, schema.run state a = .ok between ∧ schema.run between b = .ok next := by
  rw [run_append] at h
  cases hrun : schema.run state a with
  | error fault => rw [hrun] at h; cases h
  | ok between =>
    rw [hrun] at h
    exact ⟨between, rfl, h⟩

theorem exists_run_of_readFrom_append {state : State σ} {a b : Text} {w : Value}
    (h : schema.readFrom state (a ++ b) = .ok w) :
    ∃ between, schema.run state a = .ok between ∧ schema.readFrom between b = .ok w := by
  rw [readFrom, run_append] at h
  cases hrun : schema.run state a with
  | error fault => rw [hrun] at h; cases h
  | ok between =>
    rw [hrun] at h
    exact ⟨between, rfl, h⟩

theorem exists_moves_of_readFrom {state : State σ} {c : Char} {text : Text} {w : Value}
    (h : schema.readFrom state (c :: text) = .ok w) :
    ∃ next, schema.Moves state c next ∧ schema.readFrom next text = .ok w := by
  rw [readFrom_cons] at h
  cases hstep : schema.step state c with
  | error fault => rw [hstep] at h; cases h
  | ok next =>
    rw [hstep] at h
    exact ⟨next, moves_of_step hstep, h⟩

theorem exists_of_run_concat {state next : State σ} {text : Text} {c : Char}
    (h : schema.run state (text ++ [c]) = .ok next) :
    ∃ before, schema.run state text = .ok before ∧ schema.Moves before c next := by
  obtain ⟨before, hbefore, hlast⟩ := exists_run_of_run_append h
  obtain ⟨later, hstep, hnil⟩ := exists_step_of_run_cons hlast
  obtain rfl := Except.ok.inj hnil
  exact ⟨before, hbefore, moves_of_step hstep⟩


end Schema

end FeatureLines.Json
