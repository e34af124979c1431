import FeatureLines.Keyword.Build

/-!
# Tables of reordered keywords

Two lexicons may list the same keywords in different orders, or some of them
twice. Where one keyword starts another, this changes which entry of a table a
line matches. It changes neither whether there are tables and which list is at
fault, nor the kind of the entry that is matched.

The entries of one list all have its kind, so the kind of the first match among
them depends only on whether there is a match (`firstKind_map_entry_append`).
From there on nothing but kinds is compared: `Table.SameKinds` says that two
tables give every text the same kind.

`Alike` relates two outcomes that are the same error or related results. That
building keeps outcomes alike is shown for one list after the other, and for the
languages of a lexicon through the first of them that fails, since nothing else
of the others is seen then.
-/

namespace FeatureLines

/-! ## Outcomes that are alike -/

/-- Two outcomes that are the same error, or results that are related. -/
inductive Alike {ε α β : Type} (related : α → β → Prop) : Except ε α → Except ε β → Prop where
  | error (fault : ε) : Alike related (.error fault) (.error fault)
  | ok {a : α} {b : β} (results : related a b) : Alike related (.ok a) (.ok b)

namespace Alike

variable {ε α β : Type} {related : α → β → Prop} {x : Except ε α} {y : Except ε β}

theorem outcomes (h : Alike related x y) :
    (∃ fault, x = .error fault ∧ y = .error fault)
      ∨ ∃ a b, x = .ok a ∧ y = .ok b ∧ related a b := by
  cases h with
  | error fault => exact .inl ⟨fault, rfl, rfl⟩
  | ok hab => exact .inr ⟨_, _, rfl, rfl, hab⟩

theorem error_iff {fault : ε} (h : Alike related x y) : x = .error fault ↔ y = .error fault := by
  rcases h.outcomes with ⟨found, rfl, rfl⟩ | ⟨a, b, rfl, rfl, -⟩
  · exact ⟨fun hx => by rw [Except.error.inj hx], fun hy => by rw [Except.error.inj hy]⟩
  · exact ⟨fun hx => (nomatch hx), fun hy => (nomatch hy)⟩

end Alike

section

variable {α β : Type} {related : α → β → Prop} {x : Option α} {y : Option β}

theorem outcomes_of_rel (h : Option.Rel related x y) :
    (x = none ∧ y = none) ∨ ∃ a b, x = some a ∧ y = some b ∧ related a b := by
  cases h with
  | none => exact .inl ⟨rfl, rfl⟩
  | some hab => exact .inr ⟨_, _, rfl, rfl, hab⟩

theorem exists_left_of_rel {b : β} (h : Option.Rel related x y) (hy : y = some b) :
    ∃ a, x = some a ∧ related a b := by
  rcases outcomes_of_rel h with ⟨-, rfl⟩ | ⟨a, b', hx, rfl, hab⟩
  · cases hy
  · obtain rfl := Option.some.inj hy
    exact ⟨a, hx, hab⟩

end

/-! ## Lexicons with the same keywords -/

def SameWords (words others : List Text) : Prop := ∀ word, word ∈ words ↔ word ∈ others

/-- The vocabularies have the same keyword lists, and in each of them the same keywords. -/
def Vocabulary.SameKeywords (vocabulary other : Vocabulary) : Prop :=
  ∀ list ∈ keywordLists, Option.Rel SameWords (vocabulary.list? list.key) (other.list? list.key)

/-- The lexicons have the same languages, and in each of them the same keywords. -/
def Lexicon.SameKeywords (lexicon other : Lexicon) : Prop :=
  ∀ code, Option.Rel Vocabulary.SameKeywords (lexicon.get? code) (other.get? code)

instance (words others : List Text) : Decidable (SameWords words others) :=
  decidable_of_iff (words ⊆ others ∧ others ⊆ words)
    ⟨fun h _ => ⟨fun hword => h.1 hword, fun hword => h.2 hword⟩,
      fun h => ⟨fun word => (h word).mp, fun word => (h word).mpr⟩⟩

theorem SameWords.isEmpty_eq {words others : List Text} (h : SameWords words others) :
    words.isEmpty = others.isEmpty := by
  rw [Bool.eq_iff_iff, List.isEmpty_iff, List.isEmpty_iff, List.eq_nil_iff_forall_not_mem,
    List.eq_nil_iff_forall_not_mem]
  exact forall_congr' fun word => not_congr (h word)

theorem SameWords.any_eq {words others : List Text} (h : SameWords words others)
    (choose : Text → Bool) : words.any choose = others.any choose := by
  rw [Bool.eq_iff_iff, List.any_eq_true, List.any_eq_true]
  exact exists_congr fun word => and_congr_left fun _ => h word

/-! ## The kind of the first match -/

/-- The kind of the first of the entries whose lead starts the text. -/
def firstKind (text : Text) (entries : List Entry) : Option LineKind :=
  (Table.firstMatch text entries).map fun found => found.1.kind

theorem firstKind_cons (text : Text) (entry : Entry) (entries : List Entry) :
    firstKind text (entry :: entries) =
      if startsWith entry.lead text then some entry.kind else firstKind text entries := by
  cases h : stripLead entry.lead text <;>
    simp [firstKind, Table.firstMatch, Entry.rest?, startsWith, h]

/-- Among the entries of one list it does not matter which of them matches. -/
theorem firstKind_map_entry_append (text : Text) (list : KeywordList) (words : List Text)
    (entries : List Entry) :
    firstKind text (words.map list.entry ++ entries) =
      if words.any fun word => startsWith (word ++ list.separator) text then some list.kind
      else firstKind text entries := by
  induction words with
  | nil => rfl
  | cons word words ih =>
    rw [List.map_cons, List.cons_append, firstKind_cons, ih, List.any_cons]
    cases h : startsWith (word ++ list.separator) text <;> simp [KeywordList.entry, h]

/-- The entries give every text the same kind. -/
def SameKinds (entries others : List Entry) : Prop :=
  ∀ text, firstKind text entries = firstKind text others

theorem SameKinds.cons {entries others : List Entry} (h : SameKinds entries others)
    (entry : Entry) : SameKinds (entry :: entries) (entry :: others) := by
  intro text
  rw [firstKind_cons, firstKind_cons, h text]

theorem SameKinds.map_entry_append {entries others : List Entry} (h : SameKinds entries others)
    {words otherWords : List Text} (hwords : SameWords words otherWords) (list : KeywordList) :
    SameKinds (words.map list.entry ++ entries) (otherWords.map list.entry ++ others) := by
  intro text
  rw [firstKind_map_entry_append, firstKind_map_entry_append, h text, hwords.any_eq]

def Table.SameKinds (table other : Table) : Prop :=
  FeatureLines.SameKinds table.entries other.entries

/-! ## Building -/

namespace Vocabulary

theorem alike_entriesOf {vocabulary other : Vocabulary} (language : Text)
    {lists : List KeywordList}
    (h : ∀ list ∈ lists,
      Option.Rel SameWords (vocabulary.list? list.key) (other.list? list.key)) :
    Alike SameKinds (vocabulary.entriesOf language lists) (other.entriesOf language lists) := by
  induction lists with
  | nil => exact .ok fun text => rfl
  | cons list lists ih =>
    obtain ⟨hlist, hlists⟩ := List.forall_mem_cons.mp h
    unfold entriesOf
    rcases outcomes_of_rel hlist with ⟨hnone, hother⟩ | ⟨words, others, hwords, hother, hsame⟩
    · rw [hnone, hother]
      exact .error _
    · simp only [hwords, hother, hsame.isEmpty_eq]
      split
      · exact .error _
      · rcases (ih hlists).outcomes with
          ⟨fault, hfault, hother⟩ | ⟨entries, otherEntries, hentries, hother, hkinds⟩
        · rw [hfault, hother]
          exact .error fault
        · rw [hentries, hother]
          exact .ok (hkinds.map_entry_append hsame list)

theorem SameKeywords.alike_table {vocabulary other : Vocabulary}
    (h : vocabulary.SameKeywords other) (language : Text) :
    Alike Table.SameKinds (vocabulary.table language) (other.table language) := by
  unfold table
  rcases (alike_entriesOf language h).outcomes with
    ⟨fault, hfault, hother⟩ | ⟨entries, otherEntries, hentries, hother, hkinds⟩
  · rw [hfault, hother]
    exact .error fault
  · rw [hentries, hother]
    exact .ok (hkinds.cons ⟨tagLead, .tag⟩)

end Vocabulary

/-! ## All languages -/

section

variable {ε α β γ δ : Type} {related : α → β → Prop} {results : γ → δ → Prop}
  {f : Text → α → Except ε γ} {g : Text → β → Except ε δ} {m : TextMap α} {n : TextMap β}

/-- The least key that fails is the same in both maps, and so is its failure. -/
theorem traverse_eq_error_of_alike (hmaps : ∀ key, Option.Rel related (m.get? key) (n.get? key))
    (halike : ∀ key v w, related v w → Alike results (f key v) (g key w)) {fault : ε}
    (h : n.traverse g = .error fault) : m.traverse f = .error fault := by
  obtain ⟨key, w, hw, hfault, hearlier⟩ := TextMap.traverse_eq_error_iff.mp h
  obtain ⟨v, hv, hvw⟩ := exists_left_of_rel (hmaps key) hw
  refine TextMap.traverse_eq_error_iff.mpr
    ⟨key, v, hv, (halike key v w hvw).error_iff.mpr hfault, fun k v' hk hlt => ?_⟩
  -- The keys before the one that fails are those of both maps, and there neither fails.
  rcases outcomes_of_rel (hmaps k) with ⟨hnone, -⟩ | ⟨v'', w', hv', hw', hvw'⟩
  · rw [hnone] at hk
    cases hk
  · obtain rfl := Option.some.inj (hk.symm.trans hv')
    obtain ⟨found, hfound⟩ := hearlier k w' hw' hlt
    rcases (halike k v' w' hvw').outcomes with ⟨_, -, hother⟩ | ⟨other, _, hother, -, -⟩
    · cases hfound.symm.trans hother
    · exact ⟨other, hother⟩

theorem alike_traverse (hmaps : ∀ key, Option.Rel related (m.get? key) (n.get? key))
    (halike : ∀ key v w, related v w → Alike results (f key v) (g key w)) :
    Alike (fun r s => ∀ key, Option.Rel results (r.get? key) (s.get? key))
      (m.traverse f) (n.traverse g) := by
  cases hn : n.traverse g with
  | error fault =>
    rw [traverse_eq_error_of_alike hmaps halike hn]
    exact .error fault
  | ok s =>
    cases hm : m.traverse f with
    | error fault =>
      obtain ⟨key, v, hv, hfault, -⟩ := TextMap.traverse_eq_error_iff.mp hm
      have hs := TextMap.get?_of_traverse hn key
      rcases outcomes_of_rel (hmaps key) with ⟨hnone, -⟩ | ⟨v', w, hv', hw, hvw⟩
      · rw [hnone] at hv
        cases hv
      · -- What fails on one side does so on the other.
        obtain rfl := Option.some.inj (hv.symm.trans hv')
        rw [hw] at hs
        obtain ⟨found, hfound, -⟩ := hs
        have hother : g key w = .error fault := (halike key v w hvw).error_iff.mp hfault
        cases hfound.symm.trans hother
    | ok r =>
      refine .ok fun key => ?_
      have hr := TextMap.get?_of_traverse hm key
      have hs := TextMap.get?_of_traverse hn key
      rcases outcomes_of_rel (hmaps key) with ⟨hnone, hother⟩ | ⟨v, w, hv, hw, hvw⟩
      · rw [hnone] at hr
        rw [hother] at hs
        rw [hr, hs]
        exact .none
      · rw [hv] at hr
        rw [hw] at hs
        obtain ⟨a, hfound, hr⟩ := hr
        obtain ⟨b, hother, hs⟩ := hs
        have halike := halike key v w hvw
        rw [hfound, hother] at halike
        rw [hr, hs]
        cases halike with
        | ok hab => exact .some hab

end

/-- Both lexicons have tables that recognise alike, or the same language of both has none, for the
same reason. -/
theorem Lexicon.SameKeywords.alike_tables {lexicon other : Lexicon}
    (h : lexicon.SameKeywords other) :
    Alike (fun tables others =>
        ∀ code, Option.Rel Table.SameKinds (tables.get? code) (others.get? code))
      lexicon.tables other.tables :=
  alike_traverse h fun code _ _ hvocabulary => hvocabulary.alike_table code

end FeatureLines
