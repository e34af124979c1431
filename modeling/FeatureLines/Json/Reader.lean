import FeatureLines.Json.Quoted
import FeatureLines.Json.Value

/-!
# Reading JSON against a shape

A text is read one character at a time, and every value is held against the
shape that is wanted at its place. An array or an object that is out of place is
refused at its opening character, a scalar when it has been read to its end, a
repeated key where it stands, and what only the whole object shows at its
closing brace. Reading in this way is what decides which of several faults of a
text is reported: the one that the shortest faulty start of the text shows.

`Schema` says what may stand where. A shape may be `skipped`: then only the
grammar of its value matters, not its depth, the range of its numbers or the
pairing of its surrogates. All other values may be nested at most `depthLimit`
deep.

`run_append` is the law on which the rest stands: to read on is to read from
where the reading stood.
-/

namespace FeatureLines.Json

/-- What may stand where in a text; `σ` names the places. -/
structure Schema (σ : Type) where
  /-- Whether a scalar may stand at the place. -/
  fits : σ → Value → Bool
  /-- Whether an array may stand at the place. -/
  takesArray : σ → Bool
  /-- Whether an object may stand at the place. -/
  takesObject : σ → Bool
  /-- The place of an item behind these, the latest of which comes first; without one the array
  must end. -/
  item : σ → List Value → Option σ
  /-- The place of the member with this key; without one the key may not stand behind
  these members, the latest of which comes first. -/
  member : σ → List (Text × Value) → Text → Option σ
  /-- Whether an object may end with these members. -/
  mayClose : σ → List (Text × Value) → Bool
  /-- Whether only the grammar of what stands at the place matters. -/
  skips : σ → Bool

/-- An array or object around the value that is being read. What has been read of it stands
in reverse. -/
inductive Frame (σ : Type) where
  | item (place : σ) (items : List Value)
  | member (place : σ) (members : List (Text × Value)) (key : Text)
  deriving Repr

/-- Where the reading of a text stands. -/
inductive State (σ : Type) where
  /-- A value must follow. -/
  | value (place : σ) (stack : List (Frame σ))
  /-- After the bracket that opens an array. -/
  | firstItem (place : σ) (stack : List (Frame σ))
  /-- After an item of an array. -/
  | afterItem (place : σ) (items : List Value) (stack : List (Frame σ))
  /-- After the brace that opens an object. -/
  | firstKey (place : σ) (stack : List (Frame σ))
  /-- After the comma behind a member of an object. -/
  | nextKey (place : σ) (members : List (Text × Value)) (stack : List (Frame σ))
  /-- After a key; the value wanted behind the colon stands at `next`. -/
  | colon (place : σ) (members : List (Text × Value)) (key : Text) (next : σ)
      (stack : List (Frame σ))
  /-- After a member of an object. -/
  | afterMember (place : σ) (members : List (Text × Value)) (stack : List (Frame σ))
  /-- Inside a key. -/
  | key (place : σ) (members : List (Text × Value)) (scan : QuotedScan) (stack : List (Frame σ))
  /-- Inside a string that is a value. -/
  | quoted (place : σ) (scan : QuotedScan) (stack : List (Frame σ))
  /-- Inside a number. -/
  | number (place : σ) (scan : NumberScan) (stack : List (Frame σ))
  /-- Inside a word that stands for a value; `next` and then `rest` of it must still follow. -/
  | word (place : σ) (value : Value) (next : Char) (rest : Text) (stack : List (Frame σ))
  /-- After the whole value. -/
  | done (value : Value)
  deriving Repr

variable {σ : Type}

/-- Goes on behind a value. -/
def deliver (value : Value) : List (Frame σ) → State σ
  | [] => .done value
  | .item place items :: stack => .afterItem place (value :: items) stack
  | .member place members key :: stack => .afterMember place ((key, value) :: members) stack

namespace Schema

variable (schema : Schema σ)

/-- Goes on behind a scalar, if it fits its place. -/
def scalar (place : σ) (value : Value) (stack : List (Frame σ)) : Except Fault (State σ) :=
  if schema.fits place value then .ok (deliver value stack) else .error .misshapen

/-- Whether one more array or object may be opened inside these. -/
def mayOpen (place : σ) (stack : List (Frame σ)) : Bool :=
  schema.skips place || stack.length < depthLimit

def startValue (place : σ) (stack : List (Frame σ)) (c : Char) : Except Fault (State σ) :=
  if c = '[' then
    if !schema.takesArray place then .error .misshapen
    else if schema.mayOpen place stack then .ok (.firstItem place stack)
    else .error .malformed
  else if c = '{' then
    if !schema.takesObject place then .error .misshapen
    else if schema.mayOpen place stack then .ok (.firstKey place stack)
    else .error .malformed
  else if c = '"' then .ok (.quoted place QuotedScan.start stack)
  else if c = 'n' then .ok (.word place .null 'u' ['l', 'l'] stack)
  else if c = 't' then .ok (.word place (.bool true) 'r' ['u', 'e'] stack)
  else if c = 'f' then .ok (.word place (.bool false) 'a' ['l', 's', 'e'] stack)
  else
    match NumberScan.start? c with
    | some scan => .ok (.number place scan stack)
    | none => .error .malformed

def closeObject (place : σ) (members : List (Text × Value)) (stack : List (Frame σ)) :
    Except Fault (State σ) :=
  if schema.mayClose place members.reverse then
    .ok (deliver (.object members.reverse) stack)
  else .error .misshapen

def closeKey (place : σ) (members : List (Text × Value)) (key : Text) (stack : List (Frame σ)) :
    Except Fault (State σ) :=
  match schema.member place members key with
  | some next => .ok (.colon place members key next stack)
  | none => .error .misshapen

def closeNumber (place : σ) (number : Number) (stack : List (Frame σ)) :
    Except Fault (State σ) :=
  if schema.skips place || number.inRange then schema.scalar place (.number number) stack
  else .error .malformed

/-- Takes one more character, unless a number is being read. -/
def stepToken (state : State σ) (c : Char) : Except Fault (State σ) :=
  match state with
  | .value place stack =>
    if isSpace c then .ok state else schema.startValue place stack c
  | .firstItem place stack =>
    if isSpace c then .ok state
    else if c = ']' then .ok (deliver (.array []) stack)
    else
      match schema.item place [] with
      | some next => schema.startValue next (.item place [] :: stack) c
      | none => .error .malformed
  | .afterItem place items stack =>
    if isSpace c then .ok state
    else if c = ']' then .ok (deliver (.array items.reverse) stack)
    else if c = ',' then
      match schema.item place items with
      | some next => .ok (.value next (.item place items :: stack))
      | none => .error .malformed
    else .error .malformed
  | .firstKey place stack =>
    if isSpace c then .ok state
    else if c = '}' then schema.closeObject place [] stack
    else if c = '"' then .ok (.key place [] QuotedScan.start stack)
    else .error .malformed
  | .nextKey place members stack =>
    if isSpace c then .ok state
    else if c = '"' then .ok (.key place members QuotedScan.start stack)
    else .error .malformed
  | .colon place members key next stack =>
    if isSpace c then .ok state
    else if c = ':' then .ok (.value next (.member place members key :: stack))
    else .error .malformed
  | .afterMember place members stack =>
    if isSpace c then .ok state
    else if c = '}' then schema.closeObject place members stack
    else if c = ',' then .ok (.nextKey place members stack)
    else .error .malformed
  | .key place members scan stack =>
    match scan.step (!schema.skips place) c with
    | .more scan => .ok (.key place members scan stack)
    | .closed key => schema.closeKey place members key stack
    | .refused => .error .malformed
  | .quoted place scan stack =>
    match scan.step (!schema.skips place) c with
    | .more scan => .ok (.quoted place scan stack)
    | .closed text => schema.scalar place (.text text) stack
    | .refused => .error .malformed
  | .word place value next rest stack =>
    if c ≠ next then .error .malformed
    else
      match rest with
      | [] => schema.scalar place value stack
      | next :: rest => .ok (.word place value next rest stack)
  | .number _ _ _ => .error .malformed
  | .done _ => if isSpace c then .ok state else .error .malformed

/-- Takes one more character. One that cannot belong to the number being read ends it and is
then taken by what is around the number. -/
def step (state : State σ) (c : Char) : Except Fault (State σ) :=
  match state with
  | .number place scan stack =>
    match scan.step c with
    | .more scan => .ok (.number place scan stack)
    | .refused => .error .malformed
    | .ended =>
      match schema.closeNumber place scan.value stack with
      | .error fault => .error fault
      | .ok state => schema.stepToken state c
  | state => schema.stepToken state c

/-- Takes the characters of a text. -/
def run (state : State σ) : Text → Except Fault (State σ)
  | [] => .ok state
  | c :: text =>
    match schema.step state c with
    | .error fault => .error fault
    | .ok state => run state text

/-- The value that has been read when the text ends. -/
def finished : State σ → Except Fault Value
  | .done value => .ok value
  | _ => .error .truncated

def finish (state : State σ) : Except Fault Value :=
  match state with
  | .number place scan stack =>
    if scan.phase.mayEnd then
      match schema.closeNumber place scan.value stack with
      | .error fault => .error fault
      | .ok state => finished state
    else if schema.skips place then .error .malformed
    else .error .truncated
  | state => finished state

/-- The value that a text says, if it may stand at the place. -/
def read (place : σ) (text : Text) : Except Fault Value :=
  match schema.run (.value place []) text with
  | .error fault => .error fault
  | .ok state => schema.finish state

/-! ## Reading on -/

theorem run_append (state : State σ) (a b : Text) :
    schema.run state (a ++ b) =
      match schema.run state a with
      | .error fault => .error fault
      | .ok state => schema.run state b := by
  induction a generalizing state with
  | nil => rfl
  | cons c a ih =>
    simp only [List.cons_append, run]
    cases schema.step state c with
    | error fault => rfl
    | ok state => exact ih state

end Schema

end FeatureLines.Json
