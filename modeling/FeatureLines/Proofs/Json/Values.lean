import FeatureLines.Proofs.Json.Reading

/-!
# What is read

`Schema.accepts` says which values a schema admits at a place, whatever their
spelling. `read_eq_ok_iff` says that a text is read as a value exactly when it
spells the value and the schema accepts it.

The grammar is fixed for a whole value, while a schema chooses it place by
place. A `Region` is a set of places that choose alike and that items and
members do not leave; within one both directions hold at every depth. From
spelling to reading they are equations between outcomes, so they also say how
the reading goes on behind a value.
-/

namespace FeatureLines.Json

namespace Schema

variable {σ : Type} (schema : Schema σ)

mutual

/-- Whether a value may stand at a place. -/
def accepts (place : σ) : Value → Bool
  | .array items => schema.takesArray place && acceptsItems place [] items
  | .object members =>
    schema.takesObject place && acceptsMembers place [] members && schema.mayClose place members
  | value => schema.fits place value

/-- Whether these items may stand behind the earlier ones, the latest of which comes first. -/
def acceptsItems (place : σ) (earlier : List Value) : List Value → Bool
  | [] => true
  | value :: items =>
    match schema.item place earlier with
    | some next => accepts next value && acceptsItems place (value :: earlier) items
    | none => false

/-- Whether these members may stand behind the earlier ones, the latest of which comes first. -/
def acceptsMembers (place : σ) (earlier : List (Text × Value)) : List (Text × Value) → Bool
  | [] => true
  | (key, value) :: members =>
    match schema.member place earlier key with
    | some next => accepts next value && acceptsMembers place ((key, value) :: earlier) members
    | none => false

end

theorem acceptsItems_cons_iff {place : σ} {earlier items : List Value} {value : Value} :
    schema.acceptsItems place earlier (value :: items) = true ↔
      ∃ next, schema.item place earlier = some next ∧ schema.accepts next value = true
        ∧ schema.acceptsItems place (value :: earlier) items = true := by
  rw [acceptsItems]
  cases schema.item place earlier <;> simp

theorem acceptsMembers_cons_iff {place : σ} {earlier members : List (Text × Value)}
    {member : Text × Value} :
    schema.acceptsMembers place earlier (member :: members) = true ↔
      ∃ next, schema.member place earlier member.1 = some next
        ∧ schema.accepts next member.2 = true
        ∧ schema.acceptsMembers place (member :: earlier) members = true := by
  rw [acceptsMembers]
  cases schema.member place earlier member.1 <;> simp

/-- Places that are all kept or all skipped, and that items and members do not leave. -/
structure Region (kept : Bool) (places : σ → Prop) : Prop where
  skips {place : σ} (h : places place) : schema.skips place = !kept
  item {place next : σ} {items : List Value} (h : places place)
    (hitem : schema.item place items = some next) : places next
  member {place next : σ} {members : List (Text × Value)} {key : Text} (h : places place)
    (hmember : schema.member place members key = some next) : places next

/-! ## How spellings begin -/

theorem stopsNumber_append {b rest : Text} (spaces : Spaces b) (h : StopsNumber rest) :
    StopsNumber (b ++ rest) := by
  cases b with
  | nil => exact h
  | cons c b =>
    rintro _ ⟨⟩
    have hspace := spaces c (by simp)
    simp only [isSpace, Bool.or_eq_true, decide_eq_true_eq] at hspace
    rcases hspace with ((rfl | rfl) | rfl) | rfl <;> decide

theorem stopsNumber_cons {c : Char} (h : c = ',' ∨ c = ']' ∨ c = '}') (rest : Text) :
    StopsNumber (c :: rest) := by
  rintro _ ⟨⟩
  rcases h with rfl | rfl | rfl <;> decide

/-- What begins a number begins nothing else. -/
theorem ne_of_start? {c : Char} {scan : NumberScan} (h : NumberScan.start? c = some scan) :
    isSpace c = false ∧ c ≠ ']' ∧ c ≠ '[' ∧ c ≠ '\x7b' ∧ c ≠ '"' ∧ c ≠ 'n' ∧ c ≠ 't' ∧ c ≠ 'f' := by
  by_cases hminus : c = '-'
  · subst hminus
    decide
  · cases hd : digit? c with
    | none => rw [NumberScan.start?, if_neg hminus, hd] at h; cases h
    | some d =>
      obtain ⟨hlt, rfl⟩ := digit?_cases hd
      clear h hminus hd
      revert d
      decide

theorem startValue_of_start? {c : Char} {scan : NumberScan} (h : NumberScan.start? c = some scan)
    (place : σ) (stack : List (Frame σ)) :
    schema.startValue place stack c = .ok (.number place scan stack) := by
  obtain ⟨-, -, h1, h2, h3, h4, h5, h6⟩ := ne_of_start? h
  rw [startValue, if_neg h1, if_neg h2, if_neg h3, if_neg h4, if_neg h5, if_neg h6, h]

theorem head_of_spelling {kept : Bool} {depth : Nat} {value : Value} {s : Text}
    (h : Spelling kept depth value s) :
    ∃ c s', s = c :: s' ∧ isSpace c = false ∧ c ≠ ']' := by
  cases h with
  | number _ n spells range =>
    obtain ⟨c, s', scan, rfl, hstart, -⟩ :=
      NumberScan.read_of_spelling spells stopsNumber_nil
    obtain ⟨hspace, hbracket, -⟩ := ne_of_start? hstart
    exact ⟨c, s', rfl, hspace, hbracket⟩
  | _ => exact ⟨_, _, rfl, by decide, by decide⟩

theorem head_of_itemsSpelling {kept : Bool} {depth : Nat} {items : List Value} {s : Text}
    (h : ItemsSpelling kept depth items s) :
    ∃ a c s', s = a ++ c :: s' ∧ Spaces a ∧ isSpace c = false ∧ c ≠ ']' := by
  cases h with
  | @last _ _ a s b before spells _ =>
    obtain ⟨c, s', rfl, hspace, hbracket⟩ := head_of_spelling spells
    exact ⟨a, c, s' ++ b, by simp, before, hspace, hbracket⟩
  | @more _ _ _ a s b r before spells _ _ =>
    obtain ⟨c, s', rfl, hspace, hbracket⟩ := head_of_spelling spells
    exact ⟨a, c, s' ++ b ++ ',' :: r, by simp, before, hspace, hbracket⟩

theorem head_of_membersSpelling {kept : Bool} {depth : Nat} {members : List (Text × Value)}
    {s : Text} (h : MembersSpelling kept depth members s) :
    ∃ a s', s = a ++ '"' :: s' ∧ Spaces a := by
  cases h with
  | last spells =>
    obtain ⟨before, _, _, _, _, _⟩ := spells
    exact ⟨_, _, rfl, before⟩
  | @more _ _ _ s r spells _ =>
    obtain ⟨before, _, _, _, _, _⟩ := spells
    exact ⟨_, _, by rw [List.append_assoc, List.cons_append], before⟩

/-! ## Single steps -/

theorem readFrom_value_cons {c : Char} (hspace : isSpace c = false) (place : σ)
    (stack : List (Frame σ)) (text : Text) :
    schema.readFrom (.value place stack) (c :: text) =
      schema.readOn (schema.startValue place stack c) text := by
  rw [readFrom_cons]
  simp only [step, stepToken, hspace, Bool.false_eq_true, if_false]

/-- An array begins with its first item, if it does not end. -/
theorem readFrom_firstItem {c : Char} (hspace : isSpace c = false) (hbracket : c ≠ ']')
    {place next : σ} (hitem : schema.item place [] = some next) {a : Text} (spaces : Spaces a)
    (stack : List (Frame σ)) (text : Text) :
    schema.readFrom (.firstItem place stack) (a ++ c :: text) =
      schema.readFrom (.value next (.item place [] :: stack)) (a ++ c :: text) := by
  rw [(schema.rests (.firstItem place stack) rfl).readFrom_append spaces,
    (schema.rests (.value next _) rfl).readFrom_append spaces, schema.readFrom_value_cons hspace,
    readFrom_cons]
  simp only [step, stepToken, hspace, Bool.false_eq_true, if_false, hbracket, hitem]

/-- An object begins like any member behind a comma, if it does not end. -/
theorem readFrom_firstKey {a : Text} (spaces : Spaces a) (place : σ) (stack : List (Frame σ))
    (text : Text) :
    schema.readFrom (.firstKey place stack) (a ++ '"' :: text) =
      schema.readFrom (.nextKey place [] stack) (a ++ '"' :: text) := by
  rw [(schema.rests (.firstKey place stack) rfl).readFrom_append spaces,
    (schema.rests (.nextKey place [] stack) rfl).readFrom_append spaces]
  rfl

theorem readFrom_afterItem_comma {place next : σ} {items : List Value}
    (hitem : schema.item place items = some next) (stack : List (Frame σ)) (text : Text) :
    schema.readFrom (.afterItem place items stack) (',' :: text) =
      schema.readFrom (.value next (.item place items :: stack)) text := by
  have hstep : schema.step (.afterItem place items stack) ',' =
      match schema.item place items with
      | some next => .ok (.value next (.item place items :: stack))
      | none => .error .malformed := rfl
  rw [readFrom_cons, hstep, hitem, readOn_ok]

theorem readFrom_openArray {place : σ} {stack : List (Frame σ)}
    (takes : schema.takesArray place = true) (room : schema.mayOpen place stack = true)
    (text : Text) :
    schema.readFrom (.value place stack) ('[' :: text) =
      schema.readFrom (.firstItem place stack) text := by
  rw [schema.readFrom_value_cons (by decide), startValue, if_pos rfl, takes, room]
  rfl

theorem readFrom_openObject {place : σ} {stack : List (Frame σ)}
    (takes : schema.takesObject place = true) (room : schema.mayOpen place stack = true)
    (text : Text) :
    schema.readFrom (.value place stack) ('\x7b' :: text) =
      schema.readFrom (.firstKey place stack) text := by
  rw [schema.readFrom_value_cons (by decide), startValue, if_neg (by decide), if_pos rfl, takes,
    room]
  rfl

variable {schema}

theorem Region.mayOpen_iff {kept : Bool} {places : σ → Prop} (region : schema.Region kept places)
    {place : σ} (h : places place) (stack : List (Frame σ)) :
    schema.mayOpen place stack = true ↔ HasRoom kept stack.length := by
  rw [mayOpen, region.skips h, HasRoom]
  cases kept <;> simp

theorem readOn_scalar {place : σ} {value : Value} (fits : schema.fits place value = true)
    (stack : List (Frame σ)) (text : Text) :
    schema.readOn (schema.scalar place value stack) text =
      schema.readFrom (deliver value stack) text := by
  rw [scalar, if_pos fits, readOn_ok]

/-- A member is read behind earlier ones if its value is read where it stands. -/
theorem readFrom_member {place next : σ} {key : Text} {value : Value}
    {earlier : List (Text × Value)} {stack : List (Frame σ)} {a k b c s d rest : Text}
    (before : Spaces a) (spellsKey : StringSpelling (!schema.skips place) key k)
    (beforeColon : Spaces b) (hmember : schema.member place earlier key = some next)
    (behindColon : Spaces c)
    (hvalue : ∀ following, StopsNumber following →
      schema.readFrom (.value next (.member place earlier key :: stack)) (s ++ following) =
        schema.readFrom (.afterMember place ((key, value) :: earlier) stack) following)
    (behind : Spaces d) (stops : StopsNumber rest) :
    schema.readFrom (.nextKey place earlier stack)
        (a ++ '"' :: (k ++ '"' :: (b ++ ':' :: (c ++ s ++ d))) ++ rest) =
      schema.readFrom (.afterMember place ((key, value) :: earlier) stack) rest := by
  have hfollowing : StopsNumber (d ++ rest) := stopsNumber_append behind stops
  simp only [List.append_assoc, List.cons_append]
  rw [schema.readFrom_nextKey_of_spelling before spellsKey beforeColon hmember,
    (schema.rests (.value next _) rfl).readFrom_append behindColon, hvalue _ hfollowing]
  exact (schema.rests (.afterMember place _ stack) rfl).readFrom_append behind rest

/-! ## Spellings are read -/

section

variable {kept : Bool} {places : σ → Prop}

-- The recursion is on the length of the text. Items and members may hand all of their text to
-- the first of them, so the length counts twice and they count one more.
mutual

/-- A spelling is read as its value, and the reading goes on behind it. -/
theorem Region.readFrom_of_spelling (region : schema.Region kept places) {place : σ}
    (hplace : places place) {value : Value} {stack : List (Frame σ)} {s rest : Text}
    (h : Spelling kept stack.length value s) (haccepts : schema.accepts place value = true)
    (stops : StopsNumber rest) :
    schema.readFrom (.value place stack) (s ++ rest) =
      schema.readFrom (deliver value stack) rest := by
  cases h with
  | null =>
    rw [List.cons_append, schema.readFrom_value_cons (by decide)]
    exact (schema.readFrom_word place _ _ _ stack rest).trans (readOn_scalar haccepts stack rest)
  | true =>
    rw [List.cons_append, schema.readFrom_value_cons (by decide)]
    exact (schema.readFrom_word place _ _ _ stack rest).trans (readOn_scalar haccepts stack rest)
  | false =>
    rw [List.cons_append, schema.readFrom_value_cons (by decide)]
    exact (schema.readFrom_word place _ _ _ stack rest).trans (readOn_scalar haccepts stack rest)
  | number _ n spells range =>
    obtain ⟨c, s', scan, rfl, hstart, hread⟩ := NumberScan.read_of_spelling spells stops
    obtain ⟨hspace, -⟩ := ne_of_start? hstart
    rw [List.cons_append, schema.readFrom_value_cons hspace,
      schema.startValue_of_start? hstart, readOn_ok, readFrom_number, hread]
    have hrange : (schema.skips place || n.inRange) = true := by
      rw [region.skips hplace]
      cases kept with
      | false => rfl
      | true => exact range rfl
    rw [afterNumber, closeNumber, if_pos hrange]
    exact readOn_scalar haccepts stack rest
  | @text t s' _ spells =>
    rw [List.cons_append, schema.readFrom_value_cons (by decide)]
    show schema.readFrom (.quoted place .start stack) (s' ++ ['"'] ++ rest) = _
    have hskips : (!schema.skips place) = kept := by rw [region.skips hplace, Bool.not_not]
    rw [readFrom_quoted, hskips, List.append_assoc, List.singleton_append,
      QuotedScan.read_start_eq_closed_iff.mpr ⟨s', spells, rfl⟩]
    exact readOn_scalar haccepts stack rest
  | @emptyArray s' _ room spaces =>
    rw [Schema.accepts, Bool.and_eq_true] at haccepts
    have hopen := (region.mayOpen_iff hplace stack).mpr room
    rw [List.cons_append, schema.readFrom_openArray haccepts.1 hopen, List.append_assoc,
      (schema.rests (.firstItem place stack) rfl).readFrom_append spaces]
    rfl
  | @array items s' _ room spells =>
    rw [Schema.accepts, Bool.and_eq_true] at haccepts
    have hopen := (region.mayOpen_iff hplace stack).mpr room
    obtain ⟨next, hitem, hread⟩ := Region.readFrom_of_itemsSpelling region hplace spells
      haccepts.2 (stopsNumber_cons (.inr (.inl rfl)) rest)
    obtain ⟨a, c, s'', rfl, spaces, hspace, hbracket⟩ := head_of_itemsSpelling spells
    rw [List.append_assoc, List.cons_append] at hread
    rw [List.cons_append, schema.readFrom_openArray haccepts.1 hopen]
    simp only [List.append_assoc, List.cons_append, List.nil_append]
    rw [schema.readFrom_firstItem hspace hbracket hitem spaces, hread, readFrom_cons,
      List.append_nil]
    show schema.readFrom (deliver (.array items.reverse.reverse) stack) rest = _
    rw [List.reverse_reverse]
  | @emptyObject s' _ room spaces =>
    rw [Schema.accepts, Bool.and_eq_true, Bool.and_eq_true] at haccepts
    have hopen := (region.mayOpen_iff hplace stack).mpr room
    rw [List.cons_append, schema.readFrom_openObject haccepts.1.1 hopen, List.append_assoc,
      (schema.rests (.firstKey place stack) rfl).readFrom_append spaces]
    show schema.readFrom (.firstKey place stack) ('}' :: rest) = _
    rw [readFrom_cons]
    show schema.readOn (schema.closeObject place [] stack) rest = _
    rw [closeObject, List.reverse_nil, if_pos haccepts.2, readOn_ok]
  | @object members s' _ room spells =>
    rw [Schema.accepts, Bool.and_eq_true, Bool.and_eq_true] at haccepts
    have hopen := (region.mayOpen_iff hplace stack).mpr room
    have hread := Region.readFrom_of_membersSpelling region hplace spells haccepts.1.2
      (stopsNumber_cons (.inr (.inr rfl)) rest)
    obtain ⟨a, s'', rfl, spaces⟩ := head_of_membersSpelling spells
    rw [List.append_assoc, List.cons_append] at hread
    rw [List.cons_append, schema.readFrom_openObject haccepts.1.1 hopen]
    simp only [List.append_assoc, List.cons_append, List.nil_append]
    rw [schema.readFrom_firstKey spaces, hread, readFrom_cons, List.append_nil]
    show schema.readOn (schema.closeObject place members.reverse stack) rest = _
    rw [closeObject, List.reverse_reverse, if_pos haccepts.2, readOn_ok]
termination_by 2 * s.length

/-- Items are read behind earlier ones up to what follows the last. -/
theorem Region.readFrom_of_itemsSpelling (region : schema.Region kept places) {place : σ}
    (hplace : places place) {items earlier : List Value} {stack : List (Frame σ)} {s rest : Text}
    (h : ItemsSpelling kept (stack.length + 1) items s)
    (haccepts : schema.acceptsItems place earlier items = true) (stops : StopsNumber rest) :
    ∃ next, schema.item place earlier = some next
      ∧ schema.readFrom (.value next (.item place earlier :: stack)) (s ++ rest) =
        schema.readFrom (.afterItem place (items.reverse ++ earlier) stack) rest := by
  cases h with
  | @last _ value a s b before spells behind =>
    obtain ⟨next, hitem, hvalue, -⟩ := schema.acceptsItems_cons_iff.mp haccepts
    have inside : Spelling kept (Frame.item place earlier :: stack).length value s := spells
    refine ⟨next, hitem, ?_⟩
    rw [List.append_assoc, List.append_assoc,
      (schema.rests (.value next _) rfl).readFrom_append before,
      Region.readFrom_of_spelling region (region.item hplace hitem) inside hvalue
        (stopsNumber_append behind stops)]
    exact (schema.rests (.afterItem place _ stack) rfl).readFrom_append behind rest
  | @more _ value items a s b r before spells behind others =>
    obtain ⟨next, hitem, hvalue, hitems⟩ := schema.acceptsItems_cons_iff.mp haccepts
    obtain ⟨next', hitem', hread⟩ :=
      Region.readFrom_of_itemsSpelling region hplace others hitems stops
    have inside : Spelling kept (Frame.item place earlier :: stack).length value s := spells
    refine ⟨next, hitem, ?_⟩
    simp only [List.append_assoc, List.cons_append]
    rw [(schema.rests (.value next _) rfl).readFrom_append before,
      Region.readFrom_of_spelling region (region.item hplace hitem) inside hvalue
        (stopsNumber_append behind (stopsNumber_cons (.inl rfl) _))]
    show schema.readFrom (.afterItem place (value :: earlier) stack) _ = _
    rw [(schema.rests (.afterItem place _ stack) rfl).readFrom_append behind,
      schema.readFrom_afterItem_comma hitem', hread]
    simp
termination_by 2 * s.length + 1

/-- Members are read behind earlier ones up to what follows the last. -/
theorem Region.readFrom_of_membersSpelling (region : schema.Region kept places) {place : σ}
    (hplace : places place) {members earlier : List (Text × Value)} {stack : List (Frame σ)}
    {s rest : Text} (h : MembersSpelling kept (stack.length + 1) members s)
    (haccepts : schema.acceptsMembers place earlier members = true) (stops : StopsNumber rest) :
    schema.readFrom (.nextKey place earlier stack) (s ++ rest) =
      schema.readFrom (.afterMember place (members.reverse ++ earlier) stack) rest := by
  cases h with
  | last spells =>
    obtain ⟨next, hmember, hvalue, -⟩ := schema.acceptsMembers_cons_iff.mp haccepts
    exact Region.readFrom_of_memberSpelling region hplace spells hmember hvalue stops
  | @more _ member members s r spells others =>
    obtain ⟨next, hmember, hvalue, hmembers⟩ := schema.acceptsMembers_cons_iff.mp haccepts
    have hread := Region.readFrom_of_membersSpelling region hplace others hmembers stops
    rw [List.append_assoc, List.cons_append,
      Region.readFrom_of_memberSpelling region hplace spells hmember hvalue
        (stopsNumber_cons (.inl rfl) _), readFrom_cons]
    show schema.readFrom (.nextKey place (member :: earlier) stack) (r ++ rest) = _
    rw [hread]
    simp
termination_by 2 * s.length + 1

/-- A member is read behind earlier ones up to what follows it. -/
theorem Region.readFrom_of_memberSpelling (region : schema.Region kept places) {place next : σ}
    (hplace : places place) {member : Text × Value} {earlier : List (Text × Value)}
    {stack : List (Frame σ)} {s rest : Text} (h : MemberSpelling kept (stack.length + 1) member s)
    (hmember : schema.member place earlier member.1 = some next)
    (haccepts : schema.accepts next member.2 = true) (stops : StopsNumber rest) :
    schema.readFrom (.nextKey place earlier stack) (s ++ rest) =
      schema.readFrom (.afterMember place (member :: earlier) stack) rest := by
  cases h with
  | @mk _ key value a k b c s d before spellsKey beforeColon behindColon spells behind =>
    have inside : Spelling kept (Frame.member place earlier key :: stack).length value s := spells
    have hskips : (!schema.skips place) = kept := by rw [region.skips hplace, Bool.not_not]
    refine readFrom_member before (hskips ▸ spellsKey) beforeColon hmember behindColon ?_ behind stops
    intro following hfollowing
    exact Region.readFrom_of_spelling region (region.member hplace hmember) inside haccepts
      hfollowing
termination_by 2 * s.length

end

/-! ## What is read is a spelling -/

theorem exists_of_readFrom_firstItem {place : σ} {stack : List (Frame σ)} {text : Text} {w : Value}
    (h : schema.readFrom (.firstItem place stack) text = .ok w) :
    (∃ a rest, text = a ++ ']' :: rest ∧ Spaces a
      ∧ schema.readFrom (deliver (.array []) stack) rest = .ok w)
    ∨ ∃ next, schema.item place [] = some next
      ∧ schema.readFrom (.value next (.item place [] :: stack)) text = .ok w := by
  obtain ⟨a, c, text, rfl, spaces, hspace, hread⟩ :=
    (schema.rests (.firstItem place stack) rfl).exists_of_readFrom rfl h
  by_cases hbracket : c = ']'
  · subst hbracket
    exact .inl ⟨a, text, rfl, spaces, hread⟩
  · cases hitem : schema.item place [] with
    | none =>
      simp only [step, stepToken, hspace, Bool.false_eq_true, if_false, hbracket, hitem] at hread
      cases hread
    | some next =>
      refine .inr ⟨next, rfl, ?_⟩
      rwa [← schema.readFrom_firstItem hspace hbracket hitem spaces]

theorem readOn_closeObject_eq_ok_iff {place : σ} {members : List (Text × Value)}
    {stack : List (Frame σ)} {text : Text} {w : Value} :
    schema.readOn (schema.closeObject place members stack) text = .ok w ↔
      schema.mayClose place members.reverse = true
        ∧ schema.readFrom (deliver (.object members.reverse) stack) text = .ok w :=
  schema.readOn_ite_eq_ok_iff

theorem exists_of_readFrom_firstKey {place : σ} {stack : List (Frame σ)} {text : Text} {w : Value}
    (h : schema.readFrom (.firstKey place stack) text = .ok w) :
    (∃ a rest, text = a ++ '}' :: rest ∧ Spaces a ∧ schema.mayClose place [] = true
      ∧ schema.readFrom (deliver (.object []) stack) rest = .ok w)
    ∨ schema.readFrom (.nextKey place [] stack) text = .ok w := by
  obtain ⟨a, c, text, rfl, spaces, hspace, hread⟩ :=
    (schema.rests (.firstKey place stack) rfl).exists_of_readFrom rfl h
  by_cases hbrace : c = '}'
  · subst hbrace
    obtain ⟨hclose, hread⟩ := readOn_closeObject_eq_ok_iff.mp hread
    exact .inl ⟨a, text, rfl, spaces, hclose, hread⟩
  by_cases hquote : c = '"'
  · subst hquote
    exact .inr (by rwa [← schema.readFrom_firstKey spaces])
  · simp only [step, stepToken, hspace, Bool.false_eq_true, if_false, hbrace, hquote] at hread
    cases hread

/-- Behind an item the array ends or a comma and another item follow. -/
theorem cases_of_readOn_afterItem {place : σ} {items : List Value} {stack : List (Frame σ)}
    {c : Char} {text : Text} {w : Value} (hspace : isSpace c = false)
    (h : schema.readOn (schema.step (.afterItem place items stack) c) text = .ok w) :
    (c = ']' ∧ schema.readFrom (deliver (.array items.reverse) stack) text = .ok w)
      ∨ c = ',' ∧ ∃ next, schema.item place items = some next
        ∧ schema.readFrom (.value next (.item place items :: stack)) text = .ok w := by
  simp only [step, stepToken, hspace, Bool.false_eq_true, if_false] at h
  by_cases hbracket : c = ']'
  · rw [if_pos hbracket] at h
    exact .inl ⟨hbracket, h⟩
  rw [if_neg hbracket] at h
  by_cases hcomma : c = ','
  · rw [if_pos hcomma] at h
    cases hitem : schema.item place items with
    | none => rw [hitem] at h; cases h
    | some next =>
      rw [hitem] at h
      exact .inr ⟨hcomma, next, rfl, h⟩
  · rw [if_neg hcomma] at h
    cases h

/-- Behind a member the object ends or a comma and another key follow. -/
theorem cases_of_readOn_afterMember {place : σ} {members : List (Text × Value)}
    {stack : List (Frame σ)} {c : Char} {text : Text} {w : Value} (hspace : isSpace c = false)
    (h : schema.readOn (schema.step (.afterMember place members stack) c) text = .ok w) :
    (c = '}' ∧ schema.mayClose place members.reverse = true
        ∧ schema.readFrom (deliver (.object members.reverse) stack) text = .ok w)
      ∨ c = ',' ∧ schema.readFrom (.nextKey place members stack) text = .ok w := by
  simp only [step, stepToken, hspace, Bool.false_eq_true, if_false] at h
  by_cases hbrace : c = '}'
  · rw [if_pos hbrace] at h
    exact .inl ⟨hbrace, readOn_closeObject_eq_ok_iff.mp h⟩
  rw [if_neg hbrace] at h
  by_cases hcomma : c = ','
  · rw [if_pos hcomma] at h
    exact .inr ⟨hcomma, h⟩
  · rw [if_neg hcomma] at h
    cases h

theorem exists_of_afterQuoted {behind : Text → Except Fault (State σ)} {read : QuotedEnd}
    {w : Value} (h : schema.afterQuoted behind read = .ok w) :
    ∃ t rest, read = .closed t rest ∧ schema.readOn (behind t) rest = .ok w := by
  cases read with
  | closed t rest => exact ⟨t, rest, rfl, h⟩
  | refused => cases h
  | unfinished => cases h

theorem readOn_scalar_eq_ok_iff {place : σ} {value : Value} {stack : List (Frame σ)} {text : Text}
    {w : Value} :
    schema.readOn (schema.scalar place value stack) text = .ok w ↔
      schema.fits place value = true ∧ schema.readFrom (deliver value stack) text = .ok w :=
  schema.readOn_ite_eq_ok_iff

/-- A word that is read to its end spells its value. -/
theorem exists_scalar_of_readFrom_word {place : σ} {value : Value} {c next : Char} {word : Text}
    {stack : List (Frame σ)} {text : Text} {w : Value}
    (spells : Spelling kept stack.length value (c :: next :: word))
    (isScalar : schema.accepts place value = schema.fits place value)
    (h : schema.readFrom (.word place value next word stack) text = .ok w) :
    ∃ value s rest, c :: text = s ++ rest ∧ Spelling kept stack.length value s
      ∧ schema.accepts place value = true ∧ schema.readFrom (deliver value stack) rest = .ok w := by
  obtain ⟨rest, rfl, hscalar⟩ := schema.exists_of_readFrom_word h
  obtain ⟨fits, hread⟩ := readOn_scalar_eq_ok_iff.mp hscalar
  exact ⟨value, _, rest, rfl, spells, isScalar.trans fits, hread⟩

/-- What begins with neither a bracket nor a brace is a scalar. -/
theorem Region.exists_scalar_of_readOn (region : schema.Region kept places) {place : σ}
    (hplace : places place) {stack : List (Frame σ)} {c : Char} {text : Text} {w : Value}
    (hbracket : c ≠ '[') (hbrace : c ≠ '\x7b')
    (h : schema.readOn (schema.startValue place stack c) text = .ok w) :
    ∃ value s rest, c :: text = s ++ rest ∧ Spelling kept stack.length value s
      ∧ schema.accepts place value = true ∧ schema.readFrom (deliver value stack) rest = .ok w := by
  rw [startValue, if_neg hbracket, if_neg hbrace] at h
  by_cases hquote : c = '"'
  · rw [if_pos hquote, readOn_ok, readFrom_quoted, region.skips hplace, Bool.not_not] at h
    obtain ⟨t, rest, hclosed, hscalar⟩ := exists_of_afterQuoted h
    obtain ⟨s, spells, rfl⟩ := QuotedScan.read_start_eq_closed_iff.mp hclosed
    obtain ⟨fits, hread⟩ := readOn_scalar_eq_ok_iff.mp hscalar
    exact ⟨.text t, _, rest, by rw [hquote]; simp, .text _ spells, fits, hread⟩
  rw [if_neg hquote] at h
  by_cases hn : c = 'n'
  · rw [if_pos hn] at h
    exact hn ▸ exists_scalar_of_readFrom_word (.null _) rfl h
  rw [if_neg hn] at h
  by_cases ht : c = 't'
  · rw [if_pos ht] at h
    exact ht ▸ exists_scalar_of_readFrom_word (.true _) rfl h
  rw [if_neg ht] at h
  by_cases hf : c = 'f'
  · rw [if_pos hf] at h
    exact hf ▸ exists_scalar_of_readFrom_word (.false _) rfl h
  rw [if_neg hf] at h
  cases hstart : NumberScan.start? c with
  | none => rw [hstart] at h; cases h
  | some scan =>
    rw [hstart, readOn_ok, readFrom_number] at h
    cases hread : scan.read text with
    | refused => rw [hread] at h; cases h
    | unfinished => rw [hread] at h; cases h
    | stopped n rest =>
      rw [hread, afterNumber, closeNumber, region.skips hplace] at h
      obtain ⟨s, spells, rfl⟩ := NumberScan.exists_spelling_of_read hstart hread
      by_cases hrange : (!kept || n.inRange) = true
      · rw [if_pos hrange] at h
        obtain ⟨fits, hread⟩ := readOn_scalar_eq_ok_iff.mp h
        refine ⟨.number n, _, rest, rfl, .number _ n spells ?_, fits, hread⟩
        rintro rfl
        simpa using hrange
      · rw [if_neg hrange] at h
        cases h

mutual

/-- What is read where a value is wanted is white space and a spelling of a value that may
stand there. -/
theorem Region.exists_spelling_of_readFrom (region : schema.Region kept places) {place : σ}
    (hplace : places place) {stack : List (Frame σ)} {text : Text} {w : Value}
    (h : schema.readFrom (.value place stack) text = .ok w) :
    ∃ a value s rest, text = a ++ (s ++ rest) ∧ Spaces a ∧ Spelling kept stack.length value s
      ∧ schema.accepts place value = true ∧ schema.readFrom (deliver value stack) rest = .ok w := by
  obtain ⟨a, c, text, rfl, spaces, hspace, hread⟩ :=
    (schema.rests (.value place stack) rfl).exists_of_readFrom rfl h
  simp only [step, stepToken, hspace, Bool.false_eq_true, if_false] at hread
  by_cases hbracket : c = '['
  · rw [startValue, if_pos hbracket] at hread
    cases htakes : schema.takesArray place with
    | false => rw [htakes] at hread; cases hread
    | true =>
      rw [htakes, Bool.not_true, if_neg Bool.false_ne_true, readOn_ite_eq_ok_iff] at hread
      have room := (region.mayOpen_iff hplace stack).mp hread.1
      subst hbracket
      rcases exists_of_readFrom_firstItem hread.2 with
        ⟨b, rest, rfl, hb, hread⟩ | ⟨next, hitem, hread⟩
      · refine ⟨a, .array [], _, rest, ?_, spaces, .emptyArray _ room hb, ?_, hread⟩
        · simp
        · simp [Schema.accepts, acceptsItems, htakes]
      · obtain ⟨items, s, rest, rfl, spells, haccepts, hread⟩ :=
          Region.exists_itemsSpelling_of_readFrom region hplace hitem hread
        refine ⟨a, .array items, _, rest, ?_, spaces, .array _ room spells, ?_, hread⟩
        · simp
        · simp [Schema.accepts, haccepts, htakes]
  by_cases hbrace : c = '\x7b'
  · rw [startValue, if_neg hbracket, if_pos hbrace] at hread
    cases htakes : schema.takesObject place with
    | false => rw [htakes] at hread; cases hread
    | true =>
      rw [htakes, Bool.not_true, if_neg Bool.false_ne_true, readOn_ite_eq_ok_iff] at hread
      have room := (region.mayOpen_iff hplace stack).mp hread.1
      subst hbrace
      rcases exists_of_readFrom_firstKey hread.2 with ⟨b, rest, rfl, hb, hclose, hread⟩ | hread
      · refine ⟨a, .object [], _, rest, ?_, spaces, .emptyObject _ room hb, ?_, hread⟩
        · simp
        · simp [Schema.accepts, acceptsMembers, htakes, hclose]
      · obtain ⟨members, s, rest, rfl, spells, haccepts, hclose, hread⟩ :=
          Region.exists_membersSpelling_of_readFrom region hplace hread
        refine ⟨a, .object members, _, rest, ?_, spaces, .object _ room spells, ?_, hread⟩
        · simp
        · simpa [Schema.accepts, haccepts, htakes] using hclose
  obtain ⟨value, s, rest, hs, spells, haccepts, hread⟩ :=
    region.exists_scalar_of_readOn hplace hbracket hbrace hread
  exact ⟨a, value, s, rest, by rw [hs], spaces, spells, haccepts, hread⟩
termination_by 2 * text.length

/-- The same of items behind earlier ones, up to the bracket that closes the array. -/
theorem Region.exists_itemsSpelling_of_readFrom (region : schema.Region kept places)
    {place next : σ} (hplace : places place) {earlier : List Value}
    (hitem : schema.item place earlier = some next) {stack : List (Frame σ)} {text : Text}
    {w : Value}
    (h : schema.readFrom (.value next (.item place earlier :: stack)) text = .ok w) :
    ∃ items s rest, text = s ++ ']' :: rest ∧ ItemsSpelling kept (stack.length + 1) items s
      ∧ schema.acceptsItems place earlier items = true
      ∧ schema.readFrom (deliver (.array (earlier.reverse ++ items)) stack) rest = .ok w := by
  obtain ⟨a, value, s, text, rfl, before, spells, haccepts, hread⟩ :=
    Region.exists_spelling_of_readFrom region (region.item hplace hitem) h
  change schema.readFrom (.afterItem place (value :: earlier) stack) text = _ at hread
  obtain ⟨b, c, text, rfl, behind, hspace, hstep⟩ :=
    (schema.rests (.afterItem place (value :: earlier) stack) rfl).exists_of_readFrom rfl hread
  rcases cases_of_readOn_afterItem hspace hstep with
    ⟨rfl, hclosed⟩ | ⟨rfl, next', hitem', hmore⟩
  · refine ⟨[value], _, text, by simp, .last before spells behind, ?_, ?_⟩
    · exact schema.acceptsItems_cons_iff.mpr ⟨next, hitem, haccepts, rfl⟩
    · simpa using hclosed
  · obtain ⟨items, r, rest, rfl, others, hitems, hread⟩ :=
      Region.exists_itemsSpelling_of_readFrom region hplace hitem' hmore
    refine ⟨value :: items, _, rest, by simp, .more before spells behind others, ?_, ?_⟩
    · exact schema.acceptsItems_cons_iff.mpr ⟨next, hitem, haccepts, hitems⟩
    · simpa using hread
termination_by 2 * text.length + 1

/-- The same of members behind earlier ones, up to the brace that closes the object. -/
theorem Region.exists_membersSpelling_of_readFrom (region : schema.Region kept places) {place : σ}
    (hplace : places place) {earlier : List (Text × Value)} {stack : List (Frame σ)} {text : Text}
    {w : Value} (h : schema.readFrom (.nextKey place earlier stack) text = .ok w) :
    ∃ members s rest, text = s ++ '}' :: rest ∧ MembersSpelling kept (stack.length + 1) members s
      ∧ schema.acceptsMembers place earlier members = true
      ∧ schema.mayClose place (earlier.reverse ++ members) = true
      ∧ schema.readFrom (deliver (.object (earlier.reverse ++ members)) stack) rest = .ok w := by
  obtain ⟨member, next, s, c, text, rfl, spells, hmember, haccepts, hspace, hstep⟩ :=
    Region.exists_memberSpelling_of_readFrom region hplace h
  rcases cases_of_readOn_afterMember hspace hstep with ⟨rfl, hclose, hclosed⟩ | ⟨rfl, hmore⟩
  · refine ⟨[member], s, text, rfl, .last spells, ?_, ?_, ?_⟩
    · exact schema.acceptsMembers_cons_iff.mpr ⟨next, hmember, haccepts, rfl⟩
    · simpa using hclose
    · simpa using hclosed
  · obtain ⟨members, r, rest, rfl, others, hmembers, hclose, hread⟩ :=
      Region.exists_membersSpelling_of_readFrom region hplace hmore
    refine ⟨member :: members, _, rest, by simp, .more spells others, ?_, ?_, ?_⟩
    · exact schema.acceptsMembers_cons_iff.mpr ⟨next, hmember, haccepts, hmembers⟩
    · simpa using hclose
    · simpa using hread
termination_by 2 * text.length + 1

/-- The same of one member behind earlier ones. -/
theorem Region.exists_memberSpelling_of_readFrom (region : schema.Region kept places) {place : σ}
    (hplace : places place) {earlier : List (Text × Value)} {stack : List (Frame σ)} {text : Text}
    {w : Value} (h : schema.readFrom (.nextKey place earlier stack) text = .ok w) :
    ∃ member next s c rest, text = s ++ c :: rest
      ∧ MemberSpelling kept (stack.length + 1) member s
      ∧ schema.member place earlier member.1 = some next
      ∧ schema.accepts next member.2 = true
      ∧ isSpace c = false
      ∧ schema.readOn (schema.step (.afterMember place (member :: earlier) stack) c) rest =
        .ok w := by
  obtain ⟨a, quote, text, rfl, before, hspace, hkey⟩ :=
    (schema.rests (.nextKey place earlier stack) rfl).exists_of_readFrom rfl h
  simp only [step, stepToken, hspace, Bool.false_eq_true, if_false] at hkey
  by_cases hquote : quote = '"'
  · rw [if_pos hquote, readOn_ok, readFrom_key, region.skips hplace, Bool.not_not] at hkey
    subst hquote
    obtain ⟨key, text, hclosed, hbehind⟩ := exists_of_afterQuoted hkey
    obtain ⟨k, spellsKey, rfl⟩ := QuotedScan.read_start_eq_closed_iff.mp hclosed
    change schema.readOn (schema.closeKey place earlier key stack) text = _ at hbehind
    cases hmember : schema.member place earlier key with
    | none => rw [closeKey, hmember] at hbehind; cases hbehind
    | some next =>
      rw [closeKey, hmember, readOn_ok] at hbehind
      obtain ⟨b, colon, text, rfl, beforeColon, hspace, hread⟩ :=
        (schema.rests (.colon place earlier key next stack) rfl).exists_of_readFrom rfl hbehind
      simp only [step, stepToken, hspace, Bool.false_eq_true, if_false] at hread
      by_cases hcolon : colon = ':'
      · rw [if_pos hcolon, readOn_ok] at hread
        subst hcolon
        obtain ⟨c, value, s, text, rfl, behindColon, spells, haccepts, hread⟩ :=
          Region.exists_spelling_of_readFrom region (region.member hplace hmember) hread
        have hrests := schema.rests (.afterMember place ((key, value) :: earlier) stack) rfl
        obtain ⟨d, last, rest, rfl, behind, hspace, hread⟩ := hrests.exists_of_readFrom rfl hread
        exact ⟨(key, value), next, _, last, rest, by simp,
          .mk before spellsKey beforeColon behindColon spells behind, hmember, haccepts, hspace,
          hread⟩
      · rw [if_neg hcolon] at hread
        cases hread
  · rw [if_neg hquote] at hkey
    cases hkey
termination_by 2 * text.length

end

/-! ## Whole texts -/

theorem readFrom_done_eq_ok_iff {value w : Value} {text : Text} :
    schema.readFrom (.done value) text = .ok w ↔ value = w ∧ Spaces text := by
  constructor
  · intro h
    obtain ⟨a, rest, rfl, spaces, hrest⟩ := exists_spaces text
    rw [(schema.rests (.done value) rfl).readFrom_append spaces] at h
    cases rest with
    | nil => exact ⟨Except.ok.inj h, by simpa using spaces⟩
    | cons c rest =>
      rw [readFrom_cons] at h
      simp only [step, stepToken, hrest c rfl, Bool.false_eq_true, if_false] at h
      cases h
  · rintro ⟨rfl, spaces⟩
    rw [← List.append_nil text, (schema.rests (.done value) rfl).readFrom_append spaces]
    rfl

/-- A text is read as a value exactly when it spells the value, with white space around it, and
the schema accepts it. -/
theorem Region.read_eq_ok_iff (region : schema.Region kept places) {place : σ}
    (hplace : places place) {value : Value} {text : Text} :
    schema.read place text = .ok value ↔
      (∃ a s b, Spaces a ∧ Spelling kept 0 value s ∧ Spaces b ∧ text = a ++ s ++ b)
        ∧ schema.accepts place value = true := by
  constructor
  · intro h
    obtain ⟨a, v, s, b, rfl, before, spells, haccepts, hread⟩ :=
      region.exists_spelling_of_readFrom hplace h
    obtain ⟨rfl, behind⟩ := readFrom_done_eq_ok_iff.mp hread
    exact ⟨⟨a, s, b, before, spells, behind, by simp⟩, haccepts⟩
  · rintro ⟨⟨a, s, b, before, spells, behind, rfl⟩, haccepts⟩
    have stops : StopsNumber b := by
      have := stopsNumber_append behind stopsNumber_nil
      rwa [List.append_nil] at this
    have outside : Spelling kept ([] : List (Frame σ)).length value s := spells
    rw [read_eq_readFrom, List.append_assoc,
      (schema.rests (.value place []) rfl).readFrom_append before,
      region.readFrom_of_spelling hplace outside haccepts stops]
    exact readFrom_done_eq_ok_iff.mpr ⟨rfl, behind⟩

end

end Schema

end FeatureLines.Json
