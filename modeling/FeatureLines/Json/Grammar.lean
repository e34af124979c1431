import FeatureLines.Json.Quoted
import FeatureLines.Json.Value

/-!
# The JSON grammar

`Spelling kept depth value text` says that `text` spells `value` inside `depth`
open arrays and objects. A value has many spellings: white space may stand
between tokens, and a character of a string may be escaped in several ways.

With `kept` the grammar is that of values that are kept: arrays and objects are
nested at most `depthLimit` deep, numbers are in range, and surrogates come in
pairs. Without it the grammar is that of values that are skipped, which none of
this binds; surrogates are then left out of the strings they stand in.
-/

namespace FeatureLines.Json

/-- Text that holds only the white space between tokens. -/
def Spaces (text : Text) : Prop := ∀ c ∈ text, isSpace c = true

/-! ## Strings -/

/-- The text that spells a string between its quotes. -/
inductive StringSpelling (kept : Bool) : Text → Text → Prop where
  | nil : StringSpelling kept [] []
  /-- A character as it is. -/
  | plain {t s : Text} (c : Char) (quote : c ≠ '"') (backslash : c ≠ '\\')
      (control : 0x20 ≤ c.toNat) (rest : StringSpelling kept t s) :
      StringSpelling kept (c :: t) (c :: s)
  /-- A character as a backslash and a letter. -/
  | short {t s : Text} (e c : Char) (known : unescape? e = some c)
      (rest : StringSpelling kept t s) :
      StringSpelling kept (c :: t) ('\\' :: e :: s)
  /-- A character by its code unit. -/
  | unit {t s : Text} (digits : Text) (n : Nat) (value : hexQuad? digits = some n)
      (high : isHighSurrogate n = false) (low : isLowSurrogate n = false)
      (rest : StringSpelling kept t s) :
      StringSpelling kept (Char.ofNat n :: t) ('\\' :: 'u' :: (digits ++ s))
  /-- A character by a pair of surrogates. -/
  | pair {t s : Text} (isKept : kept = true) (first second : Text) (m n : Nat)
      (firstValue : hexQuad? first = some m) (secondValue : hexQuad? second = some n)
      (high : isHighSurrogate m = true) (low : isLowSurrogate n = true)
      (rest : StringSpelling kept t s) :
      StringSpelling kept (ofSurrogates m n :: t)
        ('\\' :: 'u' :: (first ++ '\\' :: 'u' :: (second ++ s)))
  /-- A surrogate in a string that is skipped. -/
  | lone {t s : Text} (isSkipped : kept = false) (digits : Text) (n : Nat)
      (value : hexQuad? digits = some n)
      (surrogate : (isHighSurrogate n || isLowSurrogate n) = true)
      (rest : StringSpelling kept t s) :
      StringSpelling kept t ('\\' :: 'u' :: (digits ++ s))

/-! ## Numbers -/

/-- The text of decimal digits. -/
def digitsText (digits : List Nat) : Text := digits.map digitChar

/-- Digits of a whole part: a zero alone, or digits that do not start with one. -/
def IsWhole (digits : List Nat) : Prop :=
  digits = [0] ∨ (digits.head?.any (· ≠ 0) = true ∧ ∀ d ∈ digits, d < 10)

/-- The text that spells a fraction. -/
inductive FractionSpelling : List Nat → Text → Prop where
  | none : FractionSpelling [] []
  | some (digits : List Nat) (nonempty : digits ≠ []) (small : ∀ d ∈ digits, d < 10) :
      FractionSpelling digits ('.' :: digitsText digits)

/-- The text that spells an exponent. -/
inductive ExponentSpelling : Bool → List Nat → Text → Prop where
  | none : ExponentSpelling false [] []
  | plain (mark : Char) (digits : List Nat) (isMark : mark = 'e' ∨ mark = 'E')
      (nonempty : digits ≠ []) (small : ∀ d ∈ digits, d < 10) :
      ExponentSpelling false digits (mark :: digitsText digits)
  | plus (mark : Char) (digits : List Nat) (isMark : mark = 'e' ∨ mark = 'E')
      (nonempty : digits ≠ []) (small : ∀ d ∈ digits, d < 10) :
      ExponentSpelling false digits (mark :: '+' :: digitsText digits)
  | minus (mark : Char) (digits : List Nat) (isMark : mark = 'e' ∨ mark = 'E')
      (nonempty : digits ≠ []) (small : ∀ d ∈ digits, d < 10) :
      ExponentSpelling true digits (mark :: '-' :: digitsText digits)

/-- The text that spells a number. -/
inductive NumberSpelling : Number → Text → Prop where
  | mk (n : Number) (fraction exponent : Text) (whole : IsWhole n.whole)
      (spellsFraction : FractionSpelling n.fraction fraction)
      (spellsExponent : ExponentSpelling n.exponentNegative n.exponent exponent) :
      NumberSpelling n
        ((if n.negative then ['-'] else []) ++ digitsText n.whole ++ fraction ++ exponent)

/-! ## Values -/

/-- Whether one more array or object may be opened. -/
def HasRoom (kept : Bool) (depth : Nat) : Prop := kept = true → depth < depthLimit

mutual

/-- The text that spells a value inside `depth` open arrays and objects. -/
inductive Spelling (kept : Bool) : Nat → Value → Text → Prop where
  | null (depth : Nat) : Spelling kept depth .null ['n', 'u', 'l', 'l']
  | true (depth : Nat) : Spelling kept depth (.bool true) ['t', 'r', 'u', 'e']
  | false (depth : Nat) : Spelling kept depth (.bool false) ['f', 'a', 'l', 's', 'e']
  | number {s : Text} (depth : Nat) (n : Number) (spells : NumberSpelling n s)
      (range : kept = true → n.inRange = true) :
      Spelling kept depth (.number n) s
  | text {t s : Text} (depth : Nat) (spells : StringSpelling kept t s) :
      Spelling kept depth (.text t) ('"' :: (s ++ ['"']))
  | emptyArray {s : Text} (depth : Nat) (room : HasRoom kept depth) (spaces : Spaces s) :
      Spelling kept depth (.array []) ('[' :: (s ++ [']']))
  | array {items : List Value} {s : Text} (depth : Nat) (room : HasRoom kept depth)
      (spells : ItemsSpelling kept (depth + 1) items s) :
      Spelling kept depth (.array items) ('[' :: (s ++ [']']))
  | emptyObject {s : Text} (depth : Nat) (room : HasRoom kept depth) (spaces : Spaces s) :
      Spelling kept depth (.object []) ('\x7b' :: (s ++ ['\x7d']))
  | object {members : List (Text × Value)} {s : Text} (depth : Nat)
      (room : HasRoom kept depth) (spells : MembersSpelling kept (depth + 1) members s) :
      Spelling kept depth (.object members) ('\x7b' :: (s ++ ['\x7d']))

/-- The text that spells the items of an array, of which there is at least one. -/
inductive ItemsSpelling (kept : Bool) : Nat → List Value → Text → Prop where
  | last {depth : Nat} {value : Value} {a s b : Text} (before : Spaces a)
      (spells : Spelling kept depth value s) (behind : Spaces b) :
      ItemsSpelling kept depth [value] (a ++ s ++ b)
  | more {depth : Nat} {value : Value} {items : List Value} {a s b r : Text}
      (before : Spaces a) (spells : Spelling kept depth value s) (behind : Spaces b)
      (rest : ItemsSpelling kept depth items r) :
      ItemsSpelling kept depth (value :: items) (a ++ s ++ b ++ ',' :: r)

/-- The text that spells the members of an object, of which there is at least one. -/
inductive MembersSpelling (kept : Bool) : Nat → List (Text × Value) → Text → Prop where
  | last {depth : Nat} {member : Text × Value} {s : Text}
      (spells : MemberSpelling kept depth member s) :
      MembersSpelling kept depth [member] s
  | more {depth : Nat} {member : Text × Value} {members : List (Text × Value)} {s r : Text}
      (spells : MemberSpelling kept depth member s)
      (rest : MembersSpelling kept depth members r) :
      MembersSpelling kept depth (member :: members) (s ++ ',' :: r)

/-- The text that spells one member of an object, with the white space around it. -/
inductive MemberSpelling (kept : Bool) : Nat → Text × Value → Text → Prop where
  | mk {depth : Nat} {key : Text} {value : Value} {a k b c s d : Text} (before : Spaces a)
      (spellsKey : StringSpelling kept key k) (beforeColon : Spaces b) (behindColon : Spaces c)
      (spells : Spelling kept depth value s) (behind : Spaces d) :
      MemberSpelling kept depth (key, value)
        (a ++ '"' :: (k ++ '"' :: (b ++ ':' :: (c ++ s ++ d))))

end

/-- A whole text that spells a value that is kept. -/
def Spells (value : Value) (text : Text) : Prop :=
  ∃ a s b, Spaces a ∧ Spelling true 0 value s ∧ Spaces b ∧ text = a ++ s ++ b

end FeatureLines.Json
