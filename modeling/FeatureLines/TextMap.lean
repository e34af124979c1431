import FeatureLines.Text.Basic

/-!
# Maps keyed by text

A `TextMap` is a finite map whose entries stand in the order of their keys by
code point, each key once. That order is part of the type, so two maps that
answer every look-up alike are equal (`TextMap.ext_get?`).
-/

namespace FeatureLines

/-- A finite map from texts, its entries in strictly increasing order of keys. -/
structure TextMap (α : Type) where
  entries : List (Text × α)
  sorted : entries.Pairwise (fun a b => a.1 < b.1)
  deriving DecidableEq, Repr

namespace TextMap

variable {α β : Type}

theorem lt_of_not_lt_of_ne {a b : Text} (h : ¬ a < b) (hne : a ≠ b) : b < a := by
  grind

/-! ## Entries in order -/

/-- Puts an entry at its place, replacing one with the same key. -/
def insertEntry (key : Text) (value : α) : List (Text × α) → List (Text × α)
  | [] => [(key, value)]
  | (k, v) :: rest =>
    if key < k then (key, value) :: (k, v) :: rest
    else if key = k then (key, value) :: rest
    else (k, v) :: insertEntry key value rest

theorem mem_insertEntry {key : Text} {value : α} {e : Text × α} {l : List (Text × α)}
    (h : e ∈ insertEntry key value l) : e = (key, value) ∨ e ∈ l := by
  fun_induction insertEntry key value l with
  | case1 => simpa using h
  | case2 => simpa using h
  | case3 v rest hlt => rcases List.mem_cons.1 h with h | h <;> simp [h]
  | case4 k v rest hlt hne ih =>
    rcases List.mem_cons.1 h with rfl | h
    · simp
    · rcases ih h with h | h <;> simp [h]

theorem pairwise_insertEntry {key : Text} {value : α} {l : List (Text × α)}
    (h : l.Pairwise (fun a b => a.1 < b.1)) :
    (insertEntry key value l).Pairwise (fun a b => a.1 < b.1) := by
  fun_induction insertEntry key value l with
  | case1 => simp
  | case2 k v rest hlt =>
    refine List.pairwise_cons.2 ⟨fun e he => ?_, h⟩
    rcases List.mem_cons.1 he with rfl | he
    · exact hlt
    · exact List.lt_trans hlt ((List.pairwise_cons.1 h).1 e he)
  | case3 v rest hlt =>
    exact List.pairwise_cons.2 ⟨(List.pairwise_cons.1 h).1, (List.pairwise_cons.1 h).2⟩
  | case4 k v rest hlt hne ih =>
    refine List.pairwise_cons.2 ⟨fun e he => ?_, ih (List.pairwise_cons.1 h).2⟩
    rcases mem_insertEntry he with rfl | he
    · exact lt_of_not_lt_of_ne hlt hne
    · exact (List.pairwise_cons.1 h).1 e he

def lookupEntry (key : Text) : List (Text × α) → Option α
  | [] => none
  | (k, v) :: rest => if key = k then some v else lookupEntry key rest

theorem lookupEntry_insertEntry (key k : Text) (value : α) (l : List (Text × α)) :
    lookupEntry k (insertEntry key value l) =
      if k = key then some value else lookupEntry k l := by
  fun_induction insertEntry key value l with
  | case1 => rfl
  | case2 => rfl
  | case3 v rest hlt => simp only [lookupEntry]; split <;> rfl
  | case4 k' v rest hlt hne ih =>
    simp only [lookupEntry, ih]
    split
    · next h => rw [if_neg (by rintro rfl; exact hne h)]
    · rfl

theorem lookupEntry_eq_none_of_lt {key : Text} {l : List (Text × α)}
    (h : ∀ e ∈ l, key < e.1) : lookupEntry key l = none := by
  induction l with
  | nil => rfl
  | cons e rest ih =>
    have hlt := h e (by simp)
    simp only [lookupEntry]
    rw [if_neg (by intro he; exact List.lt_irrefl _ (he ▸ hlt))]
    exact ih fun e he => h e (by simp [he])

/-! ## Maps -/

def empty : TextMap α := ⟨[], List.Pairwise.nil⟩

instance : Inhabited (TextMap α) := ⟨empty⟩

def insert (m : TextMap α) (key : Text) (value : α) : TextMap α :=
  ⟨insertEntry key value m.entries, pairwise_insertEntry m.sorted⟩

def get? (m : TextMap α) (key : Text) : Option α := lookupEntry key m.entries

def keys (m : TextMap α) : List Text := m.entries.map (·.1)

def size (m : TextMap α) : Nat := m.entries.length

/-- The map of a list of entries, in which the last value given for a key counts. -/
def ofList (l : List (Text × α)) : TextMap α :=
  l.foldl (fun m e => m.insert e.1 e.2) empty

@[simp] theorem get?_empty (key : Text) : (empty : TextMap α).get? key = none := rfl

@[simp] theorem get?_insert (m : TextMap α) (key k : Text) (value : α) :
    (m.insert key value).get? k = if k = key then some value else m.get? k :=
  lookupEntry_insertEntry key k value m.entries

theorem pairwise_keys (m : TextMap α) : m.keys.Pairwise (· < ·) :=
  List.pairwise_map.2 m.sorted

theorem lookupEntry_isSome_iff {key : Text} {l : List (Text × α)} :
    (lookupEntry key l).isSome ↔ key ∈ l.map (·.1) := by
  induction l with
  | nil => simp [lookupEntry]
  | cons e rest ih =>
    simp only [lookupEntry, List.map_cons, List.mem_cons]
    split <;> simp_all

/-- A key is listed exactly when it has a value. -/
theorem mem_keys_iff {m : TextMap α} {key : Text} : key ∈ m.keys ↔ (m.get? key).isSome :=
  lookupEntry_isSome_iff.symm

theorem mem_entries_iff {m : TextMap α} {key : Text} {value : α} :
    (key, value) ∈ m.entries ↔ m.get? key = some value := by
  obtain ⟨l, hl⟩ := m
  simp only [get?]
  induction l with
  | nil => simp [lookupEntry]
  | cons e rest ih =>
    obtain ⟨k, v⟩ := e
    obtain ⟨hhead, hrest⟩ := List.pairwise_cons.1 hl
    simp only [lookupEntry, List.mem_cons, Prod.mk.injEq]
    split
    · next h =>
      subst h
      constructor
      · rintro (⟨_, rfl⟩ | hm)
        · rfl
        · exact absurd (hhead _ hm) (List.lt_irrefl _)
      · intro h
        left
        simpa using h.symm
    · next h =>
      rw [← ih hrest]
      constructor
      · rintro (⟨rfl, _⟩ | hm)
        · exact absurd rfl h
        · exact hm
      · exact Or.inr

theorem entries_eq_of_lookupEntry {a b : List (Text × α)}
    (ha : a.Pairwise (fun a b => a.1 < b.1)) (hb : b.Pairwise (fun a b => a.1 < b.1))
    (h : ∀ k, lookupEntry k a = lookupEntry k b) : a = b := by
  induction a generalizing b with
  | nil =>
    cases b with
    | nil => rfl
    | cons e b => simpa [lookupEntry] using h e.1
  | cons e a ih =>
    cases b with
    | nil => simpa [lookupEntry] using h e.1
    | cons f b =>
      obtain ⟨hea, ha⟩ := List.pairwise_cons.1 ha
      obtain ⟨hfb, hbt⟩ := List.pairwise_cons.1 hb
      have hkey : e.1 = f.1 := by
        by_cases hlt : e.1 < f.1
        · have he := h e.1
          rw [lookupEntry_eq_none_of_lt (l := f :: b)] at he
          · simp [lookupEntry] at he
          · intro g hg
            rcases List.mem_cons.1 hg with rfl | hg
            · exact hlt
            · exact List.lt_trans hlt (hfb g hg)
        · by_cases heq : e.1 = f.1
          · exact heq
          · have hlt := lt_of_not_lt_of_ne hlt heq
            have hf := h f.1
            rw [lookupEntry_eq_none_of_lt (l := e :: a)] at hf
            · simp [lookupEntry] at hf
            · intro g hg
              rcases List.mem_cons.1 hg with rfl | hg
              · exact hlt
              · exact List.lt_trans hlt (hea g hg)
      have hval : e.2 = f.2 := by
        have he := h e.1
        simpa [lookupEntry, hkey] using he
      have hef : e = f := Prod.ext hkey hval
      subst hef
      congr 1
      refine ih ha hbt fun k => ?_
      have hk := h k
      simp only [lookupEntry] at hk
      by_cases hke : k = e.1
      · subst hke
        rw [lookupEntry_eq_none_of_lt hea, lookupEntry_eq_none_of_lt hfb]
      · simpa [hke] using hk

/-- Maps that answer every look-up alike are equal. -/
theorem ext_get? {a b : TextMap α} (h : ∀ k, a.get? k = b.get? k) : a = b := by
  obtain ⟨a, ha⟩ := a
  obtain ⟨b, hb⟩ := b
  have := entries_eq_of_lookupEntry ha hb h
  subst this
  rfl

/-! ## Maps of lists -/

/-- The value stands under this key, and none behind it does. -/
def LastAt (l : List (Text × α)) (key : Text) (value : α) : Prop :=
  ∃ before after, l = before ++ (key, value) :: after ∧ key ∉ after.map (·.1)

theorem lastAt_cons {e : Text × α} {l : List (Text × α)} {key : Text} {value : α} :
    LastAt (e :: l) key value ↔ LastAt l key value ∨ e = (key, value) ∧ key ∉ l.map (·.1) := by
  constructor
  · rintro ⟨before, after, hl, hafter⟩
    cases before with
    | nil =>
      obtain ⟨rfl, rfl⟩ := List.cons.inj hl
      exact .inr ⟨rfl, hafter⟩
    | cons f before =>
      obtain ⟨rfl, rfl⟩ := List.cons.inj hl
      exact .inl ⟨before, after, rfl, hafter⟩
  · rintro (⟨before, after, rfl, hafter⟩ | ⟨rfl, hl⟩)
    · exact ⟨e :: before, after, rfl, hafter⟩
    · exact ⟨[], l, rfl, hl⟩

theorem get?_foldl_insert {l : List (Text × α)} {m : TextMap α} {key : Text} {value : α} :
    (l.foldl (fun m e => m.insert e.1 e.2) m).get? key = some value ↔
      LastAt l key value ∨ key ∉ l.map (·.1) ∧ m.get? key = some value := by
  induction l generalizing m with
  | nil => simp [LastAt]
  | cons e l ih =>
    rw [List.foldl_cons, ih, get?_insert, lastAt_cons, List.map_cons, List.mem_cons, not_or,
      or_assoc]
    refine or_congr_right ?_
    by_cases hkey : key = e.1
    · subst hkey
      simp [Prod.ext_iff, and_comm]
    · have hne : e ≠ (key, value) := by rintro rfl; exact hkey rfl
      simp [hkey, hne]

/-- A map of a list holds under a key the last value that the list gives for it. -/
theorem get?_ofList_eq_some_iff {l : List (Text × α)} {key : Text} {value : α} :
    (ofList l).get? key = some value ↔ LastAt l key value := by
  rw [ofList, get?_foldl_insert, get?_empty]
  simp

theorem exists_lastAt_iff {l : List (Text × α)} {key : Text} :
    (∃ value, LastAt l key value) ↔ key ∈ l.map (·.1) := by
  induction l with
  | nil => simp [LastAt]
  | cons e l ih =>
    rw [List.map_cons, List.mem_cons, ← ih]
    constructor
    · rintro ⟨value, h⟩
      rcases lastAt_cons.mp h with h | ⟨rfl, -⟩
      · exact .inr ⟨value, h⟩
      · exact .inl rfl
    · rintro (rfl | ⟨value, h⟩)
      · by_cases hl : ∃ value, LastAt l e.1 value
        · obtain ⟨value, h⟩ := hl
          exact ⟨value, lastAt_cons.mpr (.inl h)⟩
        · exact ⟨e.2, lastAt_cons.mpr (.inr ⟨rfl, fun hmem => hl (ih.mpr hmem)⟩)⟩
      · exact ⟨value, lastAt_cons.mpr (.inl h)⟩

theorem LastAt.mem {l : List (Text × α)} {key : Text} {value : α} (h : LastAt l key value) :
    (key, value) ∈ l := by
  obtain ⟨before, after, rfl, -⟩ := h
  simp

theorem LastAt.unique {l : List (Text × α)} {key : Text} {v w : α} (hv : LastAt l key v)
    (hw : LastAt l key w) : v = w :=
  Option.some.inj ((get?_ofList_eq_some_iff.mpr hv).symm.trans (get?_ofList_eq_some_iff.mpr hw))

/-- Where no key is repeated, every value is the last under its key. -/
theorem lastAt_iff_mem {l : List (Text × α)} (nodup : (l.map (·.1)).Nodup) {key : Text}
    {value : α} : LastAt l key value ↔ (key, value) ∈ l := by
  refine ⟨LastAt.mem, fun h => ?_⟩
  obtain ⟨before, after, rfl⟩ := List.append_of_mem h
  rw [List.map_append, List.map_cons] at nodup
  have hbehind : ((key, value).1 :: after.map (·.1)).Nodup := (List.nodup_append.mp nodup).2.1
  exact ⟨before, after, rfl, (List.nodup_cons.mp hbehind).1⟩

/-- Where no key is repeated, the order of a list does not matter to its map. -/
theorem ofList_eq_of_perm {l others : List (Text × α)} (perm : others.Perm l)
    (nodup : (l.map (·.1)).Nodup) : ofList others = ofList l := by
  have hothers : (others.map (·.1)).Nodup := (perm.map _).nodup_iff.mpr nodup
  refine ext_get? fun key => Option.ext fun value => ?_
  rw [get?_ofList_eq_some_iff, get?_ofList_eq_some_iff, lastAt_iff_mem nodup,
    lastAt_iff_mem hothers]
  exact perm.mem_iff

theorem LastAt.map {l : List (Text × α)} {key : Text} {value : α} (h : LastAt l key value)
    (f : α → β) : LastAt (l.map fun e => (e.1, f e.2)) key (f value) := by
  obtain ⟨before, after, rfl, hafter⟩ := h
  refine ⟨before.map fun e => (e.1, f e.2), after.map fun e => (e.1, f e.2), by simp, ?_⟩
  simpa using hafter

theorem LastAt.filter {l : List (Text × α)} {key : Text} {value : α} (h : LastAt l key value)
    (choose : Text → Bool) (hkey : choose key = true) :
    LastAt (l.filter fun e => choose e.1) key value := by
  obtain ⟨before, after, rfl, hafter⟩ := h
  refine ⟨before.filter fun e => choose e.1, after.filter fun e => choose e.1, by simp [hkey], ?_⟩
  intro hmem
  obtain ⟨e, he, rfl⟩ := List.mem_map.mp hmem
  exact hafter (List.mem_map_of_mem (List.mem_filter.mp he).1)

theorem mem_keys_ofList {l : List (Text × α)} {key : Text} :
    key ∈ (ofList l).keys ↔ key ∈ l.map (·.1) := by
  rw [mem_keys_iff, Option.isSome_iff_exists, ← exists_lastAt_iff]
  simp only [get?_ofList_eq_some_iff]

/-! ## Transforming every value, unless one fails -/

/-- Applies `f` to the entries in order; the first failure stops. -/
def traverseEntries {ε : Type} (f : Text → α → Except ε β) :
    List (Text × α) → Except ε (List (Text × β))
  | [] => .ok []
  | (k, v) :: rest =>
    match f k v with
    | .error e => .error e
    | .ok w =>
      match traverseEntries f rest with
      | .error e => .error e
      | .ok ws => .ok ((k, w) :: ws)

theorem keys_traverseEntries {ε : Type} {f : Text → α → Except ε β} {l : List (Text × α)}
    {r : List (Text × β)} (h : traverseEntries f l = .ok r) : r.map (·.1) = l.map (·.1) := by
  fun_induction traverseEntries f l generalizing r with
  | case1 => cases h; rfl
  | case2 => simp at h
  | case3 => simp at h
  | case4 k v rest w hf ws hr ih => cases h; simp [ih hr]

/-- What is found under a key after a transformation is what was found there, transformed. -/
theorem lookupEntry_traverseEntries {ε : Type} {f : Text → α → Except ε β} {l : List (Text × α)}
    {r : List (Text × β)} (h : traverseEntries f l = .ok r) (key : Text) :
    match lookupEntry key l with
    | some v => ∃ w, f key v = .ok w ∧ lookupEntry key r = some w
    | none => lookupEntry key r = none := by
  fun_induction traverseEntries f l generalizing r with
  | case1 => cases h; rfl
  | case2 => cases h
  | case3 => cases h
  | case4 k v rest w hf ws hr ih =>
    obtain rfl := Except.ok.inj h
    simp only [lookupEntry]
    by_cases hk : key = k
    · rw [if_pos hk, if_pos hk]
      exact ⟨w, hk ▸ hf, rfl⟩
    · rw [if_neg hk, if_neg hk]
      exact ih hr

/-- Applies `f` to every entry in increasing order of keys; the first failure is the answer. -/
def traverse {ε : Type} (f : Text → α → Except ε β) (m : TextMap α) : Except ε (TextMap β) :=
  match h : traverseEntries f m.entries with
  | .error e => .error e
  | .ok l => .ok ⟨l, by
      have := List.pairwise_map.2 m.sorted
      rw [← keys_traverseEntries h] at this
      exact List.pairwise_map.1 this⟩

theorem traverse_eq_ok {ε : Type} {f : Text → α → Except ε β} {m : TextMap α} {r : TextMap β}
    (h : m.traverse f = .ok r) : traverseEntries f m.entries = .ok r.entries := by
  unfold traverse at h
  split at h
  · cases h
  · next l hl =>
    obtain rfl := Except.ok.inj h
    exact hl

/-- The transformed map holds under every key the transformed value, and nothing else. -/
theorem get?_of_traverse {ε : Type} {f : Text → α → Except ε β} {m : TextMap α} {r : TextMap β}
    (h : m.traverse f = .ok r) (key : Text) :
    match m.get? key with
    | some v => ∃ w, f key v = .ok w ∧ r.get? key = some w
    | none => r.get? key = none :=
  lookupEntry_traverseEntries (traverse_eq_ok h) key

/-! ## The first failure -/

theorem traverseEntries_eq_error_iff {ε : Type} {f : Text → α → Except ε β} {l : List (Text × α)}
    {error : ε} :
    traverseEntries f l = .error error ↔
      ∃ before key value after, l = before ++ (key, value) :: after
        ∧ (∀ e ∈ before, ∃ w, f e.1 e.2 = .ok w) ∧ f key value = .error error := by
  induction l with
  | nil => simp [traverseEntries]
  | cons e l ih =>
    obtain ⟨k, v⟩ := e
    simp only [traverseEntries]
    constructor
    · intro h
      cases hv : f k v with
      | error fault =>
        rw [hv] at h
        obtain rfl := Except.error.inj h
        exact ⟨[], k, v, l, rfl, by simp, hv⟩
      | ok w =>
        cases hrest : traverseEntries f l with
        | ok ws => simp [hv, hrest] at h
        | error fault =>
          obtain rfl : fault = error := by simpa [hv, hrest] using h
          obtain ⟨before, key, value, after, rfl, hbefore, hfault⟩ := ih.mp hrest
          exact ⟨(k, v) :: before, key, value, after, rfl,
            List.forall_mem_cons.mpr ⟨⟨w, hv⟩, hbefore⟩, hfault⟩
    · rintro ⟨before, key, value, after, hl, hbefore, hfault⟩
      cases before with
      | nil =>
        obtain ⟨he, rfl⟩ := List.cons.inj hl
        obtain ⟨rfl, rfl⟩ := Prod.mk.inj he
        rw [hfault]
      | cons first before =>
        obtain ⟨rfl, rfl⟩ := List.cons.inj hl
        obtain ⟨⟨w, hw⟩, hbefore⟩ := List.forall_mem_cons.mp hbefore
        rw [hw, ih.mpr ⟨before, key, value, after, rfl, hbefore, hfault⟩]

theorem traverse_eq_error_iff_traverseEntries {ε : Type} {f : Text → α → Except ε β}
    {m : TextMap α} {error : ε} :
    m.traverse f = .error error ↔ traverseEntries f m.entries = .error error := by
  constructor
  · intro h
    unfold traverse at h
    split at h
    · next fault hfault => rw [hfault, Except.error.inj h]
    · cases h
  · intro h
    cases hm : m.traverse f with
    | ok r => cases h.symm.trans (traverse_eq_ok hm)
    | error fault =>
      unfold traverse at hm
      split at hm
      · next found hfound => rw [← hm, ← Except.error.inj (hfound.symm.trans h)]
      · cases hm

/-- A transformation fails with the failure at the least key that has one. -/
theorem traverse_eq_error_iff {ε : Type} {f : Text → α → Except ε β} {m : TextMap α}
    {error : ε} :
    m.traverse f = .error error ↔
      ∃ key value, m.get? key = some value ∧ f key value = .error error
        ∧ ∀ k v, m.get? k = some v → k < key → ∃ w, f k v = .ok w := by
  rw [traverse_eq_error_iff_traverseEntries, traverseEntries_eq_error_iff]
  constructor
  · rintro ⟨before, key, value, after, hm, hbefore, hfault⟩
    have hsorted := m.sorted
    rw [hm] at hsorted
    obtain ⟨-, hafter, -⟩ := List.pairwise_append.mp hsorted
    refine ⟨key, value, mem_entries_iff.mp (by rw [hm]; simp), hfault, fun k v hk hlt => ?_⟩
    have hmem := mem_entries_iff.mpr hk
    rw [hm, List.mem_append, List.mem_cons] at hmem
    rcases hmem with hmem | hmem | hmem
    · exact hbefore (k, v) hmem
    · obtain ⟨rfl, -⟩ := Prod.mk.inj hmem
      exact absurd hlt (List.lt_irrefl k)
    · have hgt : key < k := (List.pairwise_cons.mp hafter).1 (k, v) hmem
      exact absurd (List.lt_trans hlt hgt) (List.lt_irrefl k)
  · rintro ⟨key, value, hkey, hfault, hearlier⟩
    obtain ⟨before, after, hm⟩ := List.append_of_mem (mem_entries_iff.mpr hkey)
    have hsorted := m.sorted
    rw [hm] at hsorted
    obtain ⟨-, -, hbefore⟩ := List.pairwise_append.mp hsorted
    refine ⟨before, key, value, after, hm, fun e he => ?_, hfault⟩
    refine hearlier e.1 e.2 (mem_entries_iff.mp ?_) (hbefore e he _ List.mem_cons_self)
    rw [hm]
    exact List.mem_append_left _ he

/-! ## Success -/

theorem keys_of_traverse {ε : Type} {f : Text → α → Except ε β} {m : TextMap α} {r : TextMap β}
    (h : m.traverse f = .ok r) : r.keys = m.keys :=
  keys_traverseEntries (traverse_eq_ok h)

theorem exists_of_traverse {ε : Type} {f : Text → α → Except ε β} {m : TextMap α} {r : TextMap β}
    (h : m.traverse f = .ok r) {key : Text} {value : α} (hvalue : m.get? key = some value) :
    ∃ w, f key value = .ok w ∧ r.get? key = some w := by
  have hget := get?_of_traverse h key
  rwa [hvalue] at hget

/-- A transformation succeeds exactly when it succeeds at every key. -/
theorem exists_traverse_eq_ok_iff {ε : Type} {f : Text → α → Except ε β} {m : TextMap α} :
    (∃ r, m.traverse f = .ok r) ↔
      ∀ key value, m.get? key = some value → ∃ w, f key value = .ok w := by
  constructor
  · rintro ⟨r, hr⟩ key value hvalue
    obtain ⟨w, hw, -⟩ := exists_of_traverse hr hvalue
    exact ⟨w, hw⟩
  · intro h
    cases hm : m.traverse f with
    | ok r => exact ⟨r, rfl⟩
    | error fault =>
      obtain ⟨key, value, hvalue, hfault, -⟩ := traverse_eq_error_iff.mp hm
      obtain ⟨w, hw⟩ := h key value hvalue
      rw [hw] at hfault
      cases hfault

end TextMap

end FeatureLines
