import FeatureLines.LineKind
import FeatureLines.Text.Basic

/-!
# Keyword tables

The table of a language lists the leads by which its lines are recognised, in
the order in which they are tried. `Table.match?` takes the first entry whose
lead starts the line; `Table.match?_eq_some_iff` says so without the search.
-/

namespace FeatureLines

/-- A lead that a line may start with, and the kind of line it marks. -/
structure Entry where
  lead : Text
  kind : LineKind
  deriving Repr, DecidableEq

/-- The rest of the line after the lead, if the line starts with it. -/
def Entry.rest? (entry : Entry) (line : Text) : Option Text := stripLead entry.lead line

theorem Entry.rest?_eq_some_iff {entry : Entry} {line rest : Text} :
    entry.rest? line = some rest ↔ line = entry.lead ++ rest :=
  stripLead_eq_some_iff

/-- The entries of one language, in the order in which they are tried. -/
structure Table where
  entries : List Entry
  deriving Repr, DecidableEq, Inhabited

namespace Table

/-- The first of the entries whose lead starts the line, with the rest of the line. -/
def firstMatch (line : Text) : List Entry → Option (Entry × Text)
  | [] => none
  | entry :: entries =>
    match entry.rest? line with
    | some rest => some (entry, rest)
    | none => firstMatch line entries

/-- The first entry of the table whose lead starts the line, with the rest of the line. -/
def match? (table : Table) (line : Text) : Option (Entry × Text) :=
  firstMatch line table.entries

def size (table : Table) : Nat := table.entries.length

def isEmpty (table : Table) : Bool := table.entries.isEmpty

/-- Whether some entry marks lines of this kind. -/
def contains (table : Table) (kind : LineKind) : Bool :=
  table.entries.any fun entry => entry.kind == kind

/-- The kinds of line that the table can recognise, in order. -/
def kinds (table : Table) : List LineKind := LineKind.all.filter table.contains

/-! ## The match as a fact about the entries -/

theorem firstMatch_eq_none_iff {line : Text} {entries : List Entry} :
    firstMatch line entries = none ↔ ∀ e ∈ entries, e.rest? line = none := by
  induction entries with
  | nil => simp [firstMatch]
  | cons e entries ih =>
    simp only [firstMatch, List.mem_cons, forall_eq_or_imp]
    cases e.rest? line <;> simp [ih]

theorem firstMatch_eq_some_iff {line rest : Text} {entries : List Entry} {entry : Entry} :
    firstMatch line entries = some (entry, rest) ↔
      ∃ before after, entries = before ++ entry :: after ∧
        (∀ e ∈ before, e.rest? line = none) ∧ line = entry.lead ++ rest := by
  induction entries with
  | nil => simp [firstMatch]
  | cons e entries ih =>
    constructor
    · intro h
      simp only [firstMatch] at h
      cases he : e.rest? line with
      | some r =>
        rw [he] at h
        cases h
        exact ⟨[], entries, rfl, by simp, Entry.rest?_eq_some_iff.1 he⟩
      | none =>
        rw [he] at h
        obtain ⟨before, after, hent, hbef, hline⟩ := ih.1 h
        refine ⟨e :: before, after, by simp [hent], ?_, hline⟩
        intro e' he'
        rcases List.mem_cons.1 he' with rfl | he'
        · exact he
        · exact hbef e' he'
    · rintro ⟨before, after, hent, hbef, hline⟩
      cases before with
      | nil =>
        simp only [List.nil_append, List.cons.injEq] at hent
        obtain ⟨rfl, rfl⟩ := hent
        simp [firstMatch, Entry.rest?_eq_some_iff.2 hline]
      | cons e' before =>
        simp only [List.cons_append, List.cons.injEq] at hent
        obtain ⟨rfl, rfl⟩ := hent
        simp only [firstMatch, hbef e (by simp)]
        exact ih.2 ⟨before, after, rfl, fun e' he' => hbef e' (by simp [he']), hline⟩

/-- A match is an entry whose lead starts the line while no earlier lead does. -/
theorem match?_eq_some_iff {table : Table} {line rest : Text} {entry : Entry} :
    table.match? line = some (entry, rest) ↔
      ∃ before after, table.entries = before ++ entry :: after ∧
        (∀ e ∈ before, e.rest? line = none) ∧ line = entry.lead ++ rest :=
  firstMatch_eq_some_iff

end Table

end FeatureLines
