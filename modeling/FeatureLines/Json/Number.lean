import FeatureLines.Text.Decimal

/-!
# JSON numbers

A number is kept by its digits. It is read one character at a time through the
phases of its grammar; a phase either takes the character, or the number has
ended before it, or the text is not a number.

`Number.inRange` says whether the number can be held in double precision. The
digits are gathered into a 64-bit significand as long as they fit, digits of the
whole part that do not fit count as powers of ten, and the product of the
significand and that power of ten, each rounded to double precision, must be
finite.
-/

namespace FeatureLines.Json

/-- A number by its digits. -/
structure Number where
  negative : Bool
  whole : List Nat
  fraction : List Nat
  exponentNegative : Bool
  exponent : List Nat
  deriving Repr, DecidableEq, Inhabited

/-! ## Range -/

/-- The nearest number with at most fifty-three significant bits, a tie going to the even one. -/
def nearestDouble (n : Nat) : Nat :=
  let unit := 1 <<< (n.log2 + 1 - 53)
  let kept := n / unit
  let cut := 2 * (n % unit)
  if unit < cut ∨ (cut = unit ∧ kept % 2 = 1) then (kept + 1) * unit else kept * unit

example : nearestDouble (2 ^ 53 + 1) = 2 ^ 53 ∧ nearestDouble (2 ^ 53 + 3) = 2 ^ 53 + 4 := by
  decide +kernel

/-- Gathers digits into the significand as long as it stays below 2^64; also how many it took. -/
def gatherDigits (significand : Nat) : List Nat → Nat × Nat
  | [] => (significand, 0)
  | d :: digits =>
    if significand * 10 + d < 2 ^ 64 then
      let (s, taken) := gatherDigits (significand * 10 + d) digits
      (s, taken + 1)
    else (significand, 0)

namespace Number

/-- The significand and the power of ten to which a number is cut. -/
def scaled (n : Number) : Nat × Int :=
  let (s, wholeTaken) := gatherDigits 0 n.whole
  let (s, fractionTaken) := gatherDigits s n.fraction
  let dropped : Int := n.whole.length - wholeTaken
  let shift : Int := ofDigits n.exponent
  (s, dropped - fractionTaken + if n.exponentNegative then -shift else shift)

/-- Whether a number is finite in double precision. -/
def inRange (n : Number) : Bool :=
  let (s, e) := n.scaled
  s == 0 || e < 0 ||
    (e ≤ 308 && nearestDouble (nearestDouble s * nearestDouble (Nat.pow 10 e.toNat)) < 1 <<< 1024)

end Number

/-! ## Reading -/

/-- What has been read of a number. -/
inductive NumberPhase where
  /-- The minus sign. -/
  | sign
  /-- A leading zero. -/
  | zero
  /-- Digits that do not start with zero. -/
  | whole
  /-- The decimal point. -/
  | point
  /-- Digits after the point. -/
  | fraction
  /-- The mark of the exponent. -/
  | mark
  /-- The sign of the exponent. -/
  | markSign
  /-- Digits of the exponent. -/
  | exponent
  deriving Repr, DecidableEq

def NumberPhase.mayEnd : NumberPhase → Bool
  | .zero | .whole | .fraction | .exponent => true
  | _ => false

/-- A number while it is read; its digits stand in reverse. -/
structure NumberScan where
  phase : NumberPhase
  reversed : Number
  deriving Repr, DecidableEq

def NumberScan.value (scan : NumberScan) : Number :=
  { scan.reversed with
    whole := scan.reversed.whole.reverse
    fraction := scan.reversed.fraction.reverse
    exponent := scan.reversed.exponent.reverse }

/-- The number that begins with this character, if one does. -/
def NumberScan.start? (c : Char) : Option NumberScan :=
  if c = '-' then some ⟨.sign, ⟨true, [], [], false, []⟩⟩
  else
    match digit? c with
    | some 0 => some ⟨.zero, ⟨false, [0], [], false, []⟩⟩
    | some d => some ⟨.whole, ⟨false, [d], [], false, []⟩⟩
    | none => none

/-- What a character does to a number that is being read. -/
inductive NumberStep where
  | more (scan : NumberScan)
  /-- The number ended before the character. -/
  | ended
  /-- No number goes on like this. -/
  | refused
  deriving Repr, DecidableEq

namespace NumberScan

/-- After the whole part: a point, an exponent, or the end. -/
def afterWhole (n : Number) (c : Char) : NumberStep :=
  if c = '.' then .more ⟨.point, n⟩
  else if c = 'e' ∨ c = 'E' then .more ⟨.mark, n⟩
  else .ended

/-- Takes one more character. -/
def step (scan : NumberScan) (c : Char) : NumberStep :=
  let n := scan.reversed
  match scan.phase, digit? c with
  | .sign, some 0 => .more ⟨.zero, { n with whole := [0] }⟩
  | .sign, some d => .more ⟨.whole, { n with whole := [d] }⟩
  | .sign, none => .refused
  | .zero, some _ => .refused
  | .zero, none => afterWhole n c
  | .whole, some d => .more ⟨.whole, { n with whole := d :: n.whole }⟩
  | .whole, none => afterWhole n c
  | .point, some d => .more ⟨.fraction, { n with fraction := [d] }⟩
  | .point, none => .refused
  | .fraction, some d => .more ⟨.fraction, { n with fraction := d :: n.fraction }⟩
  | .fraction, none => if c = 'e' ∨ c = 'E' then .more ⟨.mark, n⟩ else .ended
  | .mark, some d => .more ⟨.exponent, { n with exponent := [d] }⟩
  | .mark, none =>
    if c = '+' then .more ⟨.markSign, n⟩
    else if c = '-' then .more ⟨.markSign, { n with exponentNegative := true }⟩
    else .refused
  | .markSign, some d => .more ⟨.exponent, { n with exponent := [d] }⟩
  | .markSign, none => .refused
  | .exponent, some d => .more ⟨.exponent, { n with exponent := d :: n.exponent }⟩
  | .exponent, none => .ended

end NumberScan

end FeatureLines.Json
