import FeatureLines.Proofs.Json.Values

/-!
# What objects may hold

Two kinds of places return in every schema. At the places of one kind any value
may stand, and inside it any value again (`Schema.TakesAll`). At the others an
object may hold anything under most keys, but may give some keys only once
(`Schema.TakesOnce`); `acceptsMembers_iff` says what is left of the members of
such an object, without the order in which they were read.
-/

namespace FeatureLines.Json

namespace Schema

variable {σ : Type} {schema : Schema σ}

/-! ## Anything -/

/-- Any value may stand at these places, and what is inside it stands at them again. -/
structure TakesAll (schema : Schema σ) (places : σ → Prop) : Prop where
  fits {place : σ} (h : places place) (value : Value) : schema.fits place value = true
  takesArray {place : σ} (h : places place) : schema.takesArray place = true
  takesObject {place : σ} (h : places place) : schema.takesObject place = true
  item {place : σ} (h : places place) (items : List Value) :
    ∃ next, schema.item place items = some next ∧ places next
  member {place : σ} (h : places place) (members : List (Text × Value)) (key : Text) :
    ∃ next, schema.member place members key = some next ∧ places next
  mayClose {place : σ} (h : places place) (members : List (Text × Value)) :
    schema.mayClose place members = true

section

variable {places : σ → Prop}

mutual

theorem TakesAll.accepts (all : schema.TakesAll places) {place : σ} (h : places place)
    (value : Value) : schema.accepts place value = true := by
  cases value with
  | array items =>
    rw [Schema.accepts, all.takesArray h, TakesAll.acceptsItems all h items]
    rfl
  | object members =>
    rw [Schema.accepts, all.takesObject h, all.mayClose h, TakesAll.acceptsMembers all h members]
    rfl
  | _ => exact all.fits h _

theorem TakesAll.acceptsItems (all : schema.TakesAll places) {place : σ} (h : places place)
    (items : List Value) {earlier : List Value} :
    schema.acceptsItems place earlier items = true := by
  cases items with
  | nil => rfl
  | cons value items =>
    obtain ⟨next, hitem, hnext⟩ := all.item h earlier
    exact (schema.acceptsItems_cons_iff).mpr
      ⟨next, hitem, TakesAll.accepts all hnext value, TakesAll.acceptsItems all h items⟩

theorem TakesAll.acceptsMembers (all : schema.TakesAll places) {place : σ} (h : places place)
    (members : List (Text × Value)) {earlier : List (Text × Value)} :
    schema.acceptsMembers place earlier members = true := by
  cases members with
  | nil => rfl
  | cons member members =>
    obtain ⟨key, value⟩ := member
    obtain ⟨next, hmember, hnext⟩ := all.member h earlier key
    exact (schema.acceptsMembers_cons_iff).mpr
      ⟨next, hmember, TakesAll.accepts all hnext value, TakesAll.acceptsMembers all h members⟩

end

end

/-! ## Items of a region around which there is none -/

/-- Items are read behind earlier ones if only they stand in a region. -/
theorem Region.readFrom_items {kept : Bool} {places : σ → Prop} (region : schema.Region kept places)
    {place : σ} (inside : ∀ {items next}, schema.item place items = some next → places next)
    {items earlier : List Value} {stack : List (Frame σ)} {s rest : Text}
    (h : ItemsSpelling kept (stack.length + 1) items s)
    (haccepts : schema.acceptsItems place earlier items = true) (stops : StopsNumber rest) :
    ∃ next, schema.item place earlier = some next
      ∧ schema.readFrom (.value next (.item place earlier :: stack)) (s ++ rest) =
        schema.readFrom (.afterItem place (items.reverse ++ earlier) stack) rest := by
  induction items generalizing earlier s with
  | nil => cases h
  | cons value items ih =>
    obtain ⟨next, hitem, hvalue, hitems⟩ := schema.acceptsItems_cons_iff.mp haccepts
    have inner {v : Value} {t : Text} (h : Spelling kept (stack.length + 1) v t) :
        Spelling kept (Frame.item place earlier :: stack).length v t := h
    refine ⟨next, hitem, ?_⟩
    cases h with
    | @last _ _ a s b before spells behind =>
      have hread := region.readFrom_of_spelling (inside hitem) (inner spells) hvalue
        (stopsNumber_append behind stops)
      rw [List.append_assoc, List.append_assoc,
        (schema.rests (.value next _) rfl).readFrom_append before, hread]
      exact (schema.rests (.afterItem place _ stack) rfl).readFrom_append behind rest
    | @more _ _ _ a s b r before spells behind others =>
      obtain ⟨next', hitem', hothers⟩ := ih others hitems
      have hread := region.readFrom_of_spelling (inside hitem) (inner spells) hvalue
        (stopsNumber_append behind (stopsNumber_cons (.inl rfl) (r ++ rest)))
      simp only [List.append_assoc, List.cons_append]
      rw [(schema.rests (.value next _) rfl).readFrom_append before, hread]
      show schema.readFrom (.afterItem place (value :: earlier) stack) _ = _
      rw [(schema.rests (.afterItem place _ stack) rfl).readFrom_append behind,
        schema.readFrom_afterItem_comma hitem', hothers]
      simp

/-! ## Objects up to the closing brace -/

/-- Before its closing brace an object is cut off, and at the brace its members are judged. -/
theorem Region.exists_of_objectSpelling {kept : Bool} {places : σ → Prop}
    (region : schema.Region kept places) {place : σ} (hplace : places place)
    {members : List (Text × Value)} {stack : List (Frame σ)} {s : Text}
    (h : Spelling kept stack.length (.object members) s) (takes : schema.takesObject place = true)
    (haccepts : schema.acceptsMembers place [] members = true) :
    ∃ body, s = body ++ ['\x7d']
      ∧ schema.readFrom (.value place stack) body = .error .truncated
      ∧ ∀ rest, schema.readFrom (.value place stack) (body ++ '\x7d' :: rest) =
          schema.readOn (schema.closeObject place members.reverse stack) rest := by
  cases h with
  | @emptyObject s _ room spaces =>
    have hopen := (region.mayOpen_iff hplace stack).mpr room
    have hread (rest : Text) : schema.readFrom (.value place stack) ('\x7b' :: s ++ rest) =
        schema.readFrom (.firstKey place stack) rest := by
      rw [List.cons_append, schema.readFrom_openObject takes hopen,
        (schema.rests (.firstKey place stack) rfl).readFrom_append spaces]
    refine ⟨'\x7b' :: s, rfl, ?_, fun rest => (hread _).trans ?_⟩
    · rw [← List.append_nil ('\x7b' :: s), hread]
      rfl
    · rw [readFrom_cons]
      rfl
  | @object _ s _ room spells =>
    have hopen := (region.mayOpen_iff hplace stack).mpr room
    have hread {rest : Text} (stops : StopsNumber rest) :
        schema.readFrom (.value place stack) ('\x7b' :: s ++ rest) =
          schema.readFrom (.afterMember place members.reverse stack) rest := by
      have hmembers := region.readFrom_of_membersSpelling hplace spells haccepts stops
      obtain ⟨a, s', rfl, spaces⟩ := head_of_membersSpelling spells
      rw [List.append_nil] at hmembers
      rw [← hmembers, List.cons_append, schema.readFrom_openObject takes hopen, List.append_assoc,
        List.cons_append, schema.readFrom_firstKey spaces]
    refine ⟨'\x7b' :: s, rfl, ?_, fun rest => ?_⟩
    · rw [← List.append_nil ('\x7b' :: s), hread stopsNumber_nil]
      rfl
    · rw [hread (stopsNumber_cons (.inr (.inr rfl)) rest), readFrom_cons]
      rfl

/-! ## Keys that stand once -/

/-- Behind each key stands the value that `behind` says, and some keys may stand only once. -/
def TakesOnce (schema : Schema σ) (place : σ) (isOnce : Text → Bool) (behind : Text → σ) : Prop :=
  ∀ earlier key, schema.member place earlier key =
    if isOnce key = true ∧ key ∈ earlier.map (·.1) then none else some (behind key)

variable {place : σ} {isOnce : Text → Bool} {behind : Text → σ}

theorem TakesOnce.acceptsMembers_cons (once : schema.TakesOnce place isOnce behind)
    {member : Text × Value} {members earlier : List (Text × Value)}
    (h : schema.acceptsMembers place earlier (member :: members) = true) :
    schema.member place earlier member.1 = some (behind member.1)
      ∧ schema.accepts (behind member.1) member.2 = true
      ∧ schema.acceptsMembers place (member :: earlier) members = true := by
  obtain ⟨next, hmember, hvalue, hmembers⟩ := schema.acceptsMembers_cons_iff.mp h
  obtain rfl : behind member.1 = next := by
    rw [once] at hmember
    split at hmember
    · cases hmember
    · exact Option.some.inj hmember
  exact ⟨hmember, hvalue, hmembers⟩

theorem TakesOnce.acceptsMembers_iff (once : schema.TakesOnce place isOnce behind)
    {members earlier : List (Text × Value)} :
    schema.acceptsMembers place earlier members = true ↔
      (∀ member ∈ members, schema.accepts (behind member.1) member.2 = true)
        ∧ ∀ key, isOnce key = true → (members.map (·.1)).count key ≤ 1
          ∧ (key ∈ earlier.map (·.1) → key ∉ members.map (·.1)) := by
  induction members generalizing earlier with
  | nil => simp [Schema.acceptsMembers]
  | cons member members ih =>
    obtain ⟨key, value⟩ := member
    rw [Schema.acceptsMembers, once, List.forall_mem_cons]
    by_cases hbar : isOnce key = true ∧ key ∈ earlier.map (·.1)
    · rw [if_pos hbar]
      simp only [Bool.false_eq_true, false_iff, not_and]
      intro _ honce
      exact (honce key hbar.1).2 hbar.2 (by simp)
    · rw [if_neg hbar]
      simp only [Bool.and_eq_true, ih, and_assoc]
      refine and_congr_right fun _ => and_congr_right fun _ =>
        forall_congr' fun k => forall_congr' fun hk => ?_
      by_cases hsame : k = key
      · subst hsame
        have hearlier : k ∉ earlier.map (·.1) := fun h => hbar ⟨hk, h⟩
        have hzero : (members.map (·.1)).count k = 0 ↔ k ∉ members.map (·.1) := List.count_eq_zero
        simp only [List.map_cons, List.mem_cons, true_or, forall_const, List.count_cons_self,
          hearlier, false_imp_iff, and_true, ← hzero]
        omega
      · simp [hsame, Ne.symm hsame]

end Schema

/-- A key that stands at most once is found where it stands. -/
theorem lookup_eq_some_iff_mem {members : List (Text × Value)} {key : Text} {value : Value}
    (once : (members.map (·.1)).count key ≤ 1) :
    members.lookup key = some value ↔ (key, value) ∈ members := by
  induction members with
  | nil => simp
  | cons member members ih =>
    obtain ⟨k, v⟩ := member
    by_cases hk : key = k
    · subst hk
      have hnone : key ∉ members.map (·.1) := by
        rw [List.map_cons, List.count_cons_self] at once
        exact List.count_eq_zero.mp (by omega)
      have hmem : (key, value) ∉ members := fun h => hnone (List.mem_map_of_mem h)
      simp [hmem, eq_comm]
    · rw [List.map_cons, List.count_cons_of_ne (Ne.symm hk)] at once
      have hbeq : (key == k) = false := by simpa using hk
      rw [List.lookup_cons, hbeq]
      simp [hk, ih once]

theorem lookup_bind_text?_eq_some_iff {members : List (Text × Value)} {key t : Text}
    (once : (members.map (·.1)).count key ≤ 1) :
    (members.lookup key).bind Value.text? = some t ↔ (key, .text t) ∈ members := by
  rw [Option.bind_eq_some_iff]
  constructor
  · rintro ⟨value, hlookup, htext⟩
    cases value with
    | text u =>
      obtain rfl := Option.some.inj htext
      exact (lookup_eq_some_iff_mem once).mp hlookup
    | _ => cases htext
  · intro h
    exact ⟨_, (lookup_eq_some_iff_mem once).mpr h, rfl⟩

end FeatureLines.Json
