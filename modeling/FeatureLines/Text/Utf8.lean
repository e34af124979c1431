import FeatureLines.Text.Basic

/-!
# UTF-8

A byte string is read one byte at a time. The bytes of the character that is
being read are pending; `judge` says of them whether they are a whole
character, the start of one, or neither. The first byte that makes them neither
stops the reading, and the fault names the index at which the pending bytes
began, which is the length of the longest well-formed start of the bytes.

Overlong forms, surrogates and values above U+10FFFF are refused at their
second byte, because no character starts with those two bytes.
-/

namespace FeatureLines.Utf8

/-! ## Characters as bytes -/

def encodeChar (c : Char) : List UInt8 :=
  if c.toNat < 0x80 then [UInt8.ofNat c.toNat]
  else if c.toNat < 0x800 then
    [UInt8.ofNat (0xC0 + c.toNat / 64), UInt8.ofNat (0x80 + c.toNat % 64)]
  else if c.toNat < 0x10000 then
    [UInt8.ofNat (0xE0 + c.toNat / 4096), UInt8.ofNat (0x80 + c.toNat / 64 % 64),
      UInt8.ofNat (0x80 + c.toNat % 64)]
  else
    [UInt8.ofNat (0xF0 + c.toNat / 262144), UInt8.ofNat (0x80 + c.toNat / 4096 % 64),
      UInt8.ofNat (0x80 + c.toNat / 64 % 64), UInt8.ofNat (0x80 + c.toNat % 64)]

def encode (text : Text) : List UInt8 := text.flatMap encodeChar

@[simp] theorem encode_nil : encode [] = [] := rfl

@[simp] theorem encode_cons (c : Char) (text : Text) :
    encode (c :: text) = encodeChar c ++ encode text := rfl

@[simp] theorem encode_append (a b : Text) : encode (a ++ b) = encode a ++ encode b := by
  simp [encode]

/-- Bytes that are the encoding of some text. -/
def WellFormed (bytes : List UInt8) : Prop := ∃ text, bytes = encode text

/-- How many bytes a text takes. -/
def width (text : Text) : Nat := (encode text).length

/-! ## Judging the bytes of one character -/

/-- What the bytes read so far of one character amount to. -/
inductive Judgement where
  | whole (c : Char)
  | start
  | neither
  deriving Repr, DecidableEq

def isTail (b : UInt8) : Bool := 0x80 ≤ b.toNat && b.toNat ≤ 0xBF

/-- Whether `b` may follow the first byte `a` of a character of several bytes. -/
def mayFollow (a b : UInt8) : Bool :=
  if a.toNat = 0xE0 then 0xA0 ≤ b.toNat && b.toNat ≤ 0xBF
  else if a.toNat = 0xED then 0x80 ≤ b.toNat && b.toNat ≤ 0x9F
  else if a.toNat = 0xF0 then 0x90 ≤ b.toNat && b.toNat ≤ 0xBF
  else if a.toNat = 0xF4 then 0x80 ≤ b.toNat && b.toNat ≤ 0x8F
  else isTail b

/-- Judges the bytes read so far of one character. -/
def judge : List UInt8 → Judgement
  | [a] =>
    if a.toNat < 0x80 then .whole (Char.ofNat a.toNat)
    else if 0xC2 ≤ a.toNat ∧ a.toNat ≤ 0xF4 then .start
    else .neither
  | [a, b] =>
    if 0xC2 ≤ a.toNat ∧ a.toNat ≤ 0xF4 ∧ mayFollow a b then
      if a.toNat < 0xE0 then .whole (Char.ofNat ((a.toNat - 0xC0) * 64 + (b.toNat - 0x80)))
      else .start
    else .neither
  | [a, b, c] =>
    if 0xE0 ≤ a.toNat ∧ a.toNat ≤ 0xF4 ∧ mayFollow a b ∧ isTail c then
      if a.toNat < 0xF0 then
        .whole (Char.ofNat
          ((a.toNat - 0xE0) * 4096 + (b.toNat - 0x80) * 64 + (c.toNat - 0x80)))
      else .start
    else .neither
  | [a, b, c, d] =>
    if 0xF0 ≤ a.toNat ∧ a.toNat ≤ 0xF4 ∧ mayFollow a b ∧ isTail c ∧ isTail d then
      .whole (Char.ofNat
        ((a.toNat - 0xF0) * 262144 + (b.toNat - 0x80) * 4096 + (c.toNat - 0x80) * 64 +
          (d.toNat - 0x80)))
    else .neither
  | _ => .neither

/-! ## Reading bytes -/

/-- Why bytes are not the encoding of a text. -/
inductive Fault where
  /-- The `length` bytes at `index` are not followed by a byte that may follow them. -/
  | broken (index length : Nat)
  /-- The bytes end inside the character that begins at `index`. -/
  | unfinished (index : Nat)
  deriving Repr, DecidableEq

/-- Reads on from `index`, where the `pending` bytes of a character began. -/
def decodeFrom (index : Nat) (pending : List UInt8) : List UInt8 → Except Fault Text
  | [] => if pending.isEmpty then .ok [] else .error (.unfinished index)
  | b :: rest =>
    match judge (pending ++ [b]) with
    | .whole c => (decodeFrom (index + pending.length + 1) [] rest).map (c :: ·)
    | .start => decodeFrom index (pending ++ [b]) rest
    | .neither => .error (.broken index (max 1 pending.length))

def decode (bytes : List UInt8) : Except Fault Text := decodeFrom 0 [] bytes

example : decode [0x61, 0xC3, 0xA9, 0xF0, 0x9F, 0x98, 0x80] = .ok "aé😀".toList := by cbv
example : decode [0x61, 0xE2, 0x82, 0x61] = .error (.broken 1 2) := rfl
example : decode [0x61, 0xED, 0xA0, 0x80] = .error (.broken 1 1) := rfl
example : decode [0x61, 0xF0, 0x90] = .error (.unfinished 1) := rfl

def Fault.message : Fault → String
  | .broken index length => s!"invalid utf-8 sequence of {length} bytes from index {index}"
  | .unfinished index => s!"incomplete utf-8 byte sequence from index {index}"

end FeatureLines.Utf8
