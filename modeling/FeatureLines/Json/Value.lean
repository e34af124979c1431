import FeatureLines.Json.Number

/-!
# JSON values

A value holds what its text says: the members of an object in their order with
every repetition, and a number by its digits. What a repeated key means is left
to whoever takes the value apart.

A text is read from left to right and its first fault is its fault. There are
three: the text ends too early, a value has another shape than the one wanted at
its place, or the text is not JSON.
-/

namespace FeatureLines.Json

/-- Why a text could not be read. -/
inductive Fault where
  /-- The text ended where more was needed. -/
  | truncated
  /-- The text is fine so far, but a value has the wrong shape or a field stands twice. -/
  | misshapen
  /-- The text is not JSON. -/
  | malformed
  deriving Repr, DecidableEq

/-- How many arrays and objects may be open at once. -/
def depthLimit : Nat := 127

/-- White space between tokens. -/
def isSpace (c : Char) : Bool := c = ' ' || c = '\t' || c = '\n' || c = '\r'

/-- What a JSON text says. -/
inductive Value where
  | null
  | bool (b : Bool)
  | number (n : Number)
  | text (t : Text)
  | array (items : List Value)
  | object (members : List (Text × Value))
  deriving Repr, Inhabited

namespace Value

def isText : Value → Bool
  | .text _ => true
  | _ => false

def isLabel : Value → Bool
  | .text _ | .null => true
  | _ => false

def text? : Value → Option Text
  | .text t => some t
  | _ => none

def isTextList : Value → Bool
  | .array items => items.all isText
  | _ => false

def texts : Value → List Text
  | .array items => items.filterMap text?
  | _ => []

def members : Value → List (Text × Value)
  | .object members => members
  | _ => []

end Value

end FeatureLines.Json
