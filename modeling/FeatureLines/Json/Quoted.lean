import FeatureLines.Text.Utf8

/-!
# JSON strings

Between its quotes a string holds characters as they are, except that a quote,
a backslash and the characters below U+0020 must be escaped. `QuotedScan.step`
reads such a text one character at a time; `quote` writes it with the shortest
escapes.

A character beyond U+FFFF may be escaped as a pair of surrogates. In a string
that is kept surrogates must come in such pairs; in one that is skipped they are
not looked at. The four digits of an escape take the next four bytes of the
text and are judged together, so a text that ends within those bytes was cut off
there, whatever they are.
-/

namespace FeatureLines.Json

/-- What a character after a backslash stands for, if it stands for one character. -/
def unescape? (c : Char) : Option Char :=
  if c = '"' then some '"'
  else if c = '\\' then some '\\'
  else if c = '/' then some '/'
  else if c = 'b' then some '\x08'
  else if c = 'f' then some '\x0c'
  else if c = 'n' then some '\n'
  else if c = 'r' then some '\r'
  else if c = 't' then some '\t'
  else none

def hexDigit? (c : Char) : Option Nat :=
  if '0' ≤ c ∧ c ≤ '9' then some (c.toNat - '0'.toNat)
  else if 'a' ≤ c ∧ c ≤ 'f' then some (c.toNat - 'a'.toNat + 10)
  else if 'A' ≤ c ∧ c ≤ 'F' then some (c.toNat - 'A'.toNat + 10)
  else none

def hexQuad? : Text → Option Nat
  | [a, b, c, d] =>
    match hexDigit? a, hexDigit? b, hexDigit? c, hexDigit? d with
    | some a, some b, some c, some d => some (((a * 16 + b) * 16 + c) * 16 + d)
    | _, _, _, _ => none
  | _ => none

def isHighSurrogate (n : Nat) : Bool := 0xD800 ≤ n && n ≤ 0xDBFF

def isLowSurrogate (n : Nat) : Bool := 0xDC00 ≤ n && n ≤ 0xDFFF

/-- The character of a surrogate pair. -/
def ofSurrogates (high low : Nat) : Char :=
  Char.ofNat (0x10000 + (high - 0xD800) * 0x400 + (low - 0xDC00))

/-! ## Reading -/

/-- Where in a string the reading stands. -/
inductive QuotedPlace where
  /-- Between characters. -/
  | plain
  /-- After a backslash. -/
  | escape
  /-- Within the digits of an escape. -/
  | digits (seen : Text)
  /-- After the first half of a surrogate pair. -/
  | high (unit : Nat)
  /-- After the backslash of the second half. -/
  | highEscape (unit : Nat)
  /-- Within the digits of the second half. -/
  | highDigits (unit : Nat) (seen : Text)
  deriving Repr, DecidableEq

/-- A string while it is read; the characters stand in reverse. -/
structure QuotedScan where
  place : QuotedPlace
  reversed : Text
  deriving Repr, DecidableEq

/-- What a character does to a string that is being read. -/
inductive QuotedStep where
  | more (scan : QuotedScan)
  /-- The string ended with the character. -/
  | closed (text : Text)
  /-- No string goes on like this. -/
  | refused
  deriving Repr, DecidableEq

namespace QuotedScan

/-- A string of which only the opening quote has been read. -/
def start : QuotedScan := ⟨.plain, []⟩

/-- Goes on behind a character. -/
def push (reversed : Text) (c : Char) : QuotedStep := .more ⟨.plain, c :: reversed⟩

/-- Judges the digits of an escape once four bytes of them are there. -/
def judgeDigits (kept : Bool) (reversed seen : Text) : QuotedStep :=
  if Utf8.width seen < 4 then .more ⟨.digits seen, reversed⟩
  else
    match hexQuad? seen with
    | none => .refused
    | some n =>
      if isHighSurrogate n || isLowSurrogate n then
        if !kept then .more ⟨.plain, reversed⟩
        else if isHighSurrogate n then .more ⟨.high n, reversed⟩
        else .refused
      else push reversed (Char.ofNat n)

/-- Judges the digits of the second half of a surrogate pair. -/
def judgeHighDigits (unit : Nat) (reversed seen : Text) : QuotedStep :=
  if Utf8.width seen < 4 then .more ⟨.highDigits unit seen, reversed⟩
  else
    match hexQuad? seen with
    | none => .refused
    | some n => if isLowSurrogate n then push reversed (ofSurrogates unit n) else .refused

/-- Takes one more character of a string that is kept or skipped. -/
def step (kept : Bool) (scan : QuotedScan) (c : Char) : QuotedStep :=
  match scan.place with
  | .plain =>
    if c = '"' then .closed scan.reversed.reverse
    else if c = '\\' then .more ⟨.escape, scan.reversed⟩
    else if c.toNat < 0x20 then .refused
    else push scan.reversed c
  | .escape =>
    if c = 'u' then .more ⟨.digits [], scan.reversed⟩
    else
      match unescape? c with
      | some d => push scan.reversed d
      | none => .refused
  | .digits seen => judgeDigits kept scan.reversed (seen ++ [c])
  | .high unit => if c = '\\' then .more ⟨.highEscape unit, scan.reversed⟩ else .refused
  | .highEscape unit => if c = 'u' then .more ⟨.highDigits unit [], scan.reversed⟩ else .refused
  | .highDigits unit seen => judgeHighDigits unit scan.reversed (seen ++ [c])

end QuotedScan

/-! ## Writing -/

/-- The hexadecimal digit of a number below sixteen, in lower case. -/
def hexDigit (n : Nat) : Char :=
  if n < 10 then Char.ofNat ('0'.toNat + n) else Char.ofNat ('a'.toNat + (n - 10))

/-- How a character is written inside a string. -/
def escapeChar (c : Char) : Text :=
  if c = '"' then ['\\', '"']
  else if c = '\\' then ['\\', '\\']
  else if c = '\x08' then ['\\', 'b']
  else if c = '\x0c' then ['\\', 'f']
  else if c = '\n' then ['\\', 'n']
  else if c = '\r' then ['\\', 'r']
  else if c = '\t' then ['\\', 't']
  else if c.toNat < 0x20 then
    ['\\', 'u', '0', '0', hexDigit (c.toNat / 16), hexDigit (c.toNat % 16)]
  else [c]

/-- A string with its quotes. -/
def quote (text : Text) : Text := '"' :: text.flatMap escapeChar ++ ['"']

example : quote "a\"\\\n\x01é".toList = "\"a\\\"\\\\\\n\\u0001é\"".toList := by decide

end FeatureLines.Json
