/-!
# Kinds of lines

What a line of a feature document says, whatever language it is written in.
The kinds stand in a fixed order: the tag, then the five section headers, then
the three steps, then the continuation `And`/`But`, whose meaning depends on the
step before it.
-/

namespace FeatureLines

/-- What a line of a feature document is. -/
inductive LineKind where
  | tag
  | feature
  | scenarioOutline
  | examples
  | scenario
  | background
  | givenStep
  | whenStep
  | thenStep
  /-- `And` or `But`: it continues the step before it. -/
  | continuation
  deriving Repr, DecidableEq, Inhabited

namespace LineKind

def all : List LineKind :=
  [.tag, .feature, .scenarioOutline, .examples, .scenario, .background,
    .givenStep, .whenStep, .thenStep, .continuation]

/-- The place of a kind in the order of kinds. -/
def rank : LineKind → Nat
  | .tag => 0
  | .feature => 1
  | .scenarioOutline => 2
  | .examples => 3
  | .scenario => 4
  | .background => 5
  | .givenStep => 6
  | .whenStep => 7
  | .thenStep => 8
  | .continuation => 9

instance : LE LineKind := ⟨fun a b => a.rank ≤ b.rank⟩
instance : LT LineKind := ⟨fun a b => a.rank < b.rank⟩
instance (a b : LineKind) : Decidable (a ≤ b) := inferInstanceAs (Decidable (a.rank ≤ b.rank))
instance (a b : LineKind) : Decidable (a < b) := inferInstanceAs (Decidable (a.rank < b.rank))

theorem rank_injective {a b : LineKind} (h : a.rank = b.rank) : a = b := by
  cases a <;> cases b <;> simp [rank] at h <;> rfl

theorem le_antisymm {a b : LineKind} (hab : a ≤ b) (hba : b ≤ a) : a = b :=
  rank_injective (Nat.le_antisymm hab hba)

theorem mem_all (kind : LineKind) : kind ∈ all := by cases kind <;> decide

def sort (kinds : List LineKind) : List LineKind :=
  kinds.mergeSort fun a b => decide (a ≤ b)

def name : LineKind → String
  | .tag => "tag"
  | .feature => "feature"
  | .scenarioOutline => "scenario outline"
  | .examples => "examples"
  | .scenario => "scenario"
  | .background => "background"
  | .givenStep => "given"
  | .whenStep => "when"
  | .thenStep => "then"
  | .continuation => "and/but"

theorem name_injective {a b : LineKind} (h : a.name = b.name) : a = b := by
  cases a <;> cases b <;> simp [name] at h <;> rfl

/-- The steps that say themselves what they are. -/
def isConcreteStep : LineKind → Bool
  | .givenStep | .whenStep | .thenStep => true
  | _ => false

/-- The headers that open a new block of steps. -/
def isSection : LineKind → Bool
  | .feature | .scenarioOutline | .examples | .scenario | .background => true
  | _ => false

/-- The kinds for which every language has at least one keyword of its own. -/
def isRequired : LineKind → Bool
  | .tag | .continuation => false
  | _ => true

/-! ## The kinds by name -/

def sections : List LineKind := [.feature, .scenarioOutline, .examples, .scenario, .background]

def steps : List LineKind := [.givenStep, .whenStep, .thenStep]

def required : List LineKind := sections ++ steps

theorem isSection_iff {kind : LineKind} : kind.isSection = true ↔ kind ∈ sections := by
  cases kind <;> decide

theorem isConcreteStep_iff {kind : LineKind} : kind.isConcreteStep = true ↔ kind ∈ steps := by
  cases kind <;> decide

theorem isRequired_iff {kind : LineKind} : kind.isRequired = true ↔ kind ∈ required := by
  cases kind <;> decide

end LineKind

end FeatureLines
