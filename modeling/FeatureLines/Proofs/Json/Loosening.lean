import FeatureLines.Proofs.Json.Completion

/-!
# A schema and a looser one

A looser schema takes whatever another one takes. Side by side, the looser
reading leads where the other leads, and where the other one finds a wrong shape
the looser one goes on to where the text can be completed (`relaxed_step`). So a
text that the looser schema cannot complete is found not to be JSON by both, if
it does not end before its last token is judged (`readFrom_of_not_completes`).

This fails where one character shows both faults and the wrong shape is looked
at first: at a bracket or brace beyond the depth limit, and at the end of a
number that is out of range. `HidesNothing` leaves these out.
-/

namespace FeatureLines.Json.Schema

variable {σ : Type} {loose strict : Schema σ}

/-- One schema takes whatever the other takes, and at the same places. -/
structure Loosens (loose strict : Schema σ) : Prop where
  fits {place : σ} {value : Value} (h : strict.fits place value = true) :
    loose.fits place value = true
  takesArray {place : σ} (h : strict.takesArray place = true) : loose.takesArray place = true
  takesObject {place : σ} (h : strict.takesObject place = true) : loose.takesObject place = true
  item {place next : σ} {items : List Value} (h : strict.item place items = some next) :
    loose.item place items = some next
  member {place next : σ} {members : List (Text × Value)} {key : Text}
    (h : strict.member place members key = some next) : loose.member place members key = some next
  mayClose {place : σ} {members : List (Text × Value)} (h : strict.mayClose place members = true) :
    loose.mayClose place members = true
  skips (place : σ) : loose.skips place = strict.skips place

/-- There is room for an array or an object wherever one would have the wrong shape. -/
def RoomFor (strict : Schema σ) (place : σ) (stack : List (Frame σ)) : Prop :=
  strict.takesArray place = false ∨ strict.takesObject place = false → stack.length < depthLimit

/-- Where the reading stands a wrong shape does not hide that the text is not JSON. -/
def HidesNothing (strict : Schema σ) : State σ → Prop
  | .value place stack => strict.RoomFor place stack
  | .firstItem place stack => ∀ next, strict.item place [] = some next →
    strict.RoomFor next (.item place [] :: stack)
  | .number place _ _ => ∀ n, strict.fits place (.number n) = true
  | _ => True

/-- A step of the looser schema beside one of the other. It leads where that one leads; and where
that one finds a wrong shape, which must hide nothing, it leads to where the text can be
completed. -/
structure Relaxed (loose : Schema σ) (hidesNothing : Prop)
    (result strictResult : Except Fault (State σ)) : Prop where
  ok : ∀ state, strictResult = .ok state → result = .ok state
  misshapen : hidesNothing → strictResult = .error .misshapen →
    ∃ state, result = .ok state ∧ loose.Completes state

namespace Relaxed

variable {hidesNothing : Prop}

theorem of_ok {state : State σ} : Relaxed loose hidesNothing (.ok state) (.ok state) where
  ok _ h := h
  misshapen _ h := nomatch h

theorem of_malformed {result : Except Fault (State σ)} :
    Relaxed loose hidesNothing result (.error .malformed) where
  ok _ h := nomatch h
  misshapen _ h := nomatch h

theorem of_completes {state : State σ} (completes : loose.Completes state) :
    Relaxed loose hidesNothing (.ok state) (.error .misshapen) where
  ok _ h := nomatch h
  misshapen _ _ := ⟨state, rfl, completes⟩

theorem of_ite {check : Prop} [Decidable check] {a b a' b' : Except Fault (State σ)}
    (hpos : check → Relaxed loose hidesNothing a a')
    (hneg : ¬ check → Relaxed loose hidesNothing b b') :
    Relaxed loose hidesNothing (if check then a else b) (if check then a' else b') := by
  by_cases h : check
  · rw [if_pos h, if_pos h]
    exact hpos h
  · rw [if_neg h, if_neg h]
    exact hneg h

/-- A check of the shape, which the looser schema passes. -/
theorem of_check {check strictCheck : Bool} {state : State σ} (h : check = true)
    (completes : loose.Completes state) :
    Relaxed loose hidesNothing (if check then .ok state else .error .misshapen)
      (if strictCheck then .ok state else .error .misshapen) := by
  subst h
  cases strictCheck with
  | true => exact of_ok
  | false => exact of_completes completes

end Relaxed

section

variable (loosens : loose.Loosens strict) (all : loose.TakesAll fun _ => True)
  {hidesNothing : Prop}
include all

theorem relaxed_scalar (place : σ) (value : Value) (stack : List (Frame σ)) :
    Relaxed loose hidesNothing (loose.scalar place value stack) (strict.scalar place value stack) :=
  .of_check (all.fits trivial value) (all.completes_deliver value stack)

theorem relaxed_closeObject (place : σ) (members : List (Text × Value)) (stack : List (Frame σ)) :
    Relaxed loose hidesNothing (loose.closeObject place members stack)
      (strict.closeObject place members stack) :=
  .of_check (all.mayClose trivial _) (all.completes_deliver _ stack)

include loosens

theorem relaxed_closeKey (place : σ) (members : List (Text × Value)) (key : Text)
    (stack : List (Frame σ)) :
    Relaxed loose hidesNothing (loose.closeKey place members key stack)
      (strict.closeKey place members key stack) := by
  unfold closeKey
  cases hstrict : strict.member place members key with
  | some next =>
    rw [loosens.member hstrict]
    exact .of_ok
  | none =>
    obtain ⟨next, hmember, -⟩ := all.member trivial members key
    rw [hmember]
    exact .of_completes (all.completes_colon place next members key stack)

theorem relaxed_closeNumber (place : σ) (number : Number) (stack : List (Frame σ)) :
    Relaxed loose hidesNothing (loose.closeNumber place number stack)
      (strict.closeNumber place number stack) := by
  unfold closeNumber
  rw [loosens.skips]
  exact .of_ite (fun _ => relaxed_scalar all place _ stack) fun _ => .of_malformed

omit all in
/-- An array or an object is opened, if there is room for it where it would have the wrong shape. -/
theorem relaxed_open {takes strictTakes : Bool} (htakes : takes = true) {place : σ}
    {stack : List (Frame σ)}
    (room : hidesNothing → strictTakes = false → stack.length < depthLimit)
    {state : State σ} (completes : loose.Completes state) :
    Relaxed loose hidesNothing
      (if !takes then .error .misshapen
        else if loose.mayOpen place stack then .ok state else .error .malformed)
      (if !strictTakes then .error .misshapen
        else if strict.mayOpen place stack then .ok state else .error .malformed) := by
  have hmayOpen : loose.mayOpen place stack = strict.mayOpen place stack := by
    rw [mayOpen, mayOpen, loosens.skips]
  subst htakes
  cases strictTakes with
  | true =>
    simp only [Bool.not_true, Bool.false_eq_true, if_false, hmayOpen]
    exact .of_ite (fun _ => .of_ok) fun _ => .of_malformed
  | false =>
    simp only [Bool.not_true, Bool.false_eq_true, if_false, Bool.not_false, if_true]
    constructor
    · intro next h
      cases h
    · intro h _
      refine ⟨state, if_pos ?_, completes⟩
      simp [mayOpen, room h rfl]

theorem relaxed_startValue (place : σ) (stack : List (Frame σ)) (c : Char) :
    Relaxed loose (strict.RoomFor place stack) (loose.startValue place stack c)
      (strict.startValue place stack c) := by
  unfold startValue
  refine .of_ite (fun _ => relaxed_open loosens (all.takesArray trivial)
    (fun room h => room (.inl h)) (all.completes_firstItem place stack)) fun _ => ?_
  refine .of_ite (fun _ => relaxed_open loosens (all.takesObject trivial)
    (fun room h => room (.inr h)) (all.completes_firstKey place stack)) fun _ => ?_
  refine .of_ite (fun _ => .of_ok) fun _ => .of_ite (fun _ => .of_ok) fun _ =>
    .of_ite (fun _ => .of_ok) fun _ => .of_ite (fun _ => .of_ok) fun _ => ?_
  cases NumberScan.start? c with
  | some scan => exact .of_ok
  | none => exact .of_malformed

theorem relaxed_stepToken (state : State σ) (c : Char) :
    Relaxed loose (strict.HidesNothing state) (loose.stepToken state c)
      (strict.stepToken state c) := by
  cases state with
  | value place stack =>
    exact .of_ite (fun _ => .of_ok) fun _ => relaxed_startValue loosens all place stack c
  | firstItem place stack =>
    refine .of_ite (fun _ => .of_ok) fun _ => .of_ite (fun _ => .of_ok) fun _ => ?_
    cases hitem : strict.item place [] with
    | none => exact .of_malformed
    | some next =>
      rw [loosens.item hitem]
      have hrelaxed := relaxed_startValue loosens all next (.item place [] :: stack) c
      exact ⟨hrelaxed.ok, fun room => hrelaxed.misshapen (room next hitem)⟩
  | afterItem place items stack =>
    refine .of_ite (fun _ => .of_ok) fun _ => .of_ite (fun _ => .of_ok) fun _ =>
      .of_ite (fun _ => ?_) fun _ => .of_malformed
    cases hitem : strict.item place items with
    | none => exact .of_malformed
    | some next =>
      rw [loosens.item hitem]
      exact .of_ok
  | firstKey place stack =>
    exact .of_ite (fun _ => .of_ok) fun _ =>
      .of_ite (fun _ => relaxed_closeObject all place [] stack) fun _ =>
        .of_ite (fun _ => .of_ok) fun _ => .of_malformed
  | nextKey place members stack =>
    exact .of_ite (fun _ => .of_ok) fun _ => .of_ite (fun _ => .of_ok) fun _ => .of_malformed
  | colon place members key next stack =>
    exact .of_ite (fun _ => .of_ok) fun _ => .of_ite (fun _ => .of_ok) fun _ => .of_malformed
  | afterMember place members stack =>
    exact .of_ite (fun _ => .of_ok) fun _ =>
      .of_ite (fun _ => relaxed_closeObject all place members stack) fun _ =>
        .of_ite (fun _ => .of_ok) fun _ => .of_malformed
  | key place members scan stack =>
    simp only [stepToken, loosens.skips]
    cases scan.step (!strict.skips place) c with
    | more scan => exact .of_ok
    | closed key => exact relaxed_closeKey loosens all place members key stack
    | refused => exact .of_malformed
  | quoted place scan stack =>
    simp only [stepToken, loosens.skips]
    cases scan.step (!strict.skips place) c with
    | more scan => exact .of_ok
    | closed text => exact relaxed_scalar all place (.text text) stack
    | refused => exact .of_malformed
  | word place value next rest stack =>
    refine .of_ite (fun _ => .of_malformed) fun _ => ?_
    cases rest with
    | nil => exact relaxed_scalar all place value stack
    | cons next rest => exact .of_ok
  | number place scan stack => exact .of_malformed
  | done value => exact .of_ite (fun _ => .of_ok) fun _ => .of_malformed

omit loosens all in
theorem hidesNothing_deliver (value : Value) (stack : List (Frame σ)) :
    strict.HidesNothing (deliver value stack) := by
  rcases stack with _ | ⟨frame, stack⟩
  · exact trivial
  · cases frame <;> exact trivial

theorem relaxed_step (state : State σ) (c : Char) :
    Relaxed loose (strict.HidesNothing state) (loose.step state c) (strict.step state c) := by
  cases state with
  | number place scan stack =>
    simp only [step]
    cases scan.step c with
    | more scan => exact .of_ok
    | refused => exact .of_malformed
    | ended =>
      have hclose : Relaxed loose True (loose.closeNumber place scan.value stack)
          (strict.closeNumber place scan.value stack) :=
        relaxed_closeNumber loosens all place scan.value stack
      rcases strict.closeNumber_cases place scan.value stack with hstrict | ⟨fault, hstrict⟩
      · have htoken := relaxed_stepToken loosens all (deliver (.number scan.value) stack) c
        simp only [hstrict, hclose.ok _ hstrict]
        exact ⟨htoken.ok, fun _ => htoken.misshapen (hidesNothing_deliver _ stack)⟩
      · simp only [hstrict]
        refine ⟨fun _ h => (nomatch h), fun fits h => ?_⟩
        -- A number that fits is refused for its size only.
        obtain rfl : fault = .misshapen := Except.error.inj h
        rw [closeNumber, scalar, if_pos (fits scan.value)] at hstrict
        split at hstrict
        · cases hstrict
        · cases hstrict
  | _ => exact relaxed_stepToken loosens all _ c

/-- What is read with a schema is read with a looser one, up to the same place. -/
theorem Loosens.run_eq_ok {state next : State σ} {text : Text}
    (h : strict.run state text = .ok next) : loose.run state text = .ok next := by
  induction text generalizing state with
  | nil => exact h
  | cons c text ih =>
    obtain ⟨later, hstep, hlater⟩ := exists_step_of_run_cons h
    rw [run, (relaxed_step loosens all state c).ok _ hstep]
    exact ih hlater

omit all in
theorem Loosens.begins {place : σ} {stack : List (Frame σ)} {state : State σ}
    (begins : strict.Begins place stack state) : loose.Begins place stack state := by
  cases begins with
  | value => exact .value
  | firstItem item inside => exact .firstItem (loosens.item item) inside

/-- A step behind which the text cannot be completed finds that it is not JSON, unless a token has
been begun that is judged as a whole. -/
theorem step_of_not_completes {state : State σ} (hides : strict.HidesNothing state) {c : Char}
    (dead : ∀ text w, loose.readFrom state (c :: text) ≠ .ok w) :
    strict.step state c = .error .malformed
      ∨ ∃ next, strict.step state c = .ok next ∧ ¬ loose.Completes next := by
  have hrelaxed := relaxed_step loosens all state c
  have hnever {next : State σ} (hstep : loose.step state c = .ok next) :
      ¬ loose.Completes next := fun hnext => by
    obtain ⟨text, w, hread⟩ := completes_of_step hstep hnext
    exact dead text w hread
  cases hstep : strict.step state c with
  | ok next => exact .inr ⟨next, rfl, hnever (hrelaxed.ok _ hstep)⟩
  | error fault =>
    cases fault with
    | truncated => exact absurd hstep (step_ne_truncated state c)
    | malformed => exact .inl rfl
    | misshapen =>
      obtain ⟨next, hloose, hcompletes⟩ := hrelaxed.misshapen hides hstep
      exact absurd hcompletes (hnever hloose)

variable (region : loose.Region true fun _ => True)
include region

omit loosens in
/-- Where the text cannot be completed the reading is in a token, and at the place where it was. -/
theorem hidesNothing_of_step {state next : State σ} (hides : strict.HidesNothing state)
    (hnext : ¬ loose.Completes next) {c : Char} (hstep : strict.step state c = .ok next) :
    strict.HidesNothing next := by
  rcases all.cases_of_not_completes region hnext with
    ⟨seen, hseen, -⟩ | ⟨place, scan, stack, rfl, hmends, -⟩
  · cases next <;> first | exact trivial | cases hseen
  · rcases (moves_of_step hstep).number_cases rfl with ⟨hstart, -⟩ | ⟨earlier, rfl, -⟩
    · exact absurd (NumberScan.mends_of_start? hstart) hmends
    · exact hides

/-- A text that cannot be completed is found not to be JSON where its token ends. If the text ends
before, it does so within the digits of an escape, or behind the sign of an exponent. -/
theorem readFrom_of_not_completes {state : State σ} (dead : ¬ loose.Completes state)
    (hides : strict.HidesNothing state) (text : Text) :
    strict.readFrom state text = .error .malformed
      ∨ strict.readFrom state text = .error .truncated
        ∧ ∃ last, strict.run state text = .ok last ∧ ¬ loose.Completes last
          ∧ ((∃ seen, last.pending? = some seen ∧ seen ≠ [])
            ∨ ∃ place scan stack, last = .number place scan stack ∧ scan.phase = .markSign
              ∧ ¬ scan.Mends) := by
  induction text generalizing state with
  | nil =>
    have hskips (place : σ) : strict.skips place = false :=
      (loosens.skips place).symm.trans (region.skips trivial)
    rcases all.cases_of_not_completes region dead with
      ⟨seen, hseen, hne⟩ | ⟨place, scan, stack, rfl, hmends, hrange⟩
    · refine .inr ⟨?_, state, rfl, dead, .inl ⟨seen, hseen, hne⟩⟩
      cases state <;> first | rfl | cases hseen
    · rw [readFrom_nil, finish]
      by_cases hend : scan.phase.mayEnd = true
      · left
        simp [hend, closeNumber, hskips, hrange hend]
      · refine .inr ⟨by simp [hend, hskips], _, rfl, dead,
          .inr ⟨place, scan, stack, rfl, ?_, hmends⟩⟩
        rcases (NumberScan.cases_of_not_mends hmends).1 with hsign | hexponent
        · exact hsign
        · exact absurd (by rw [hexponent]; rfl) hend
  | cons c text ih =>
    rw [readFrom_cons]
    have hdead : ∀ following w, loose.readFrom state (c :: following) ≠ .ok w :=
      fun following w hread => dead ⟨_, w, hread⟩
    rcases step_of_not_completes loosens all hides hdead with hstep | ⟨next, hstep, hnext⟩
    · left
      rw [hstep, readOn_error]
    · rw [hstep, readOn_ok, run, hstep]
      exact ih hnext (hidesNothing_of_step all region hides hnext hstep)

end

/-! ## Shapes that are left out -/

section

mutual

theorem Loosens.accepts (loosens : loose.Loosens strict) {place : σ} {value : Value}
    (h : strict.accepts place value = true) : loose.accepts place value = true := by
  cases value with
  | array items =>
    rw [Schema.accepts, Bool.and_eq_true] at h ⊢
    exact ⟨loosens.takesArray h.1, Loosens.acceptsItems loosens h.2⟩
  | object members =>
    rw [Schema.accepts, Bool.and_eq_true, Bool.and_eq_true] at h ⊢
    exact ⟨⟨loosens.takesObject h.1.1, Loosens.acceptsMembers loosens h.1.2⟩,
      loosens.mayClose h.2⟩
  | _ => exact loosens.fits h

theorem Loosens.acceptsItems (loosens : loose.Loosens strict) {place : σ}
    {earlier items : List Value} (h : strict.acceptsItems place earlier items = true) :
    loose.acceptsItems place earlier items = true := by
  cases items with
  | nil => rfl
  | cons value items =>
    obtain ⟨next, hitem, hvalue, hitems⟩ := strict.acceptsItems_cons_iff.mp h
    exact loose.acceptsItems_cons_iff.mpr
      ⟨next, loosens.item hitem, Loosens.accepts loosens hvalue,
        Loosens.acceptsItems loosens hitems⟩

theorem Loosens.acceptsMembers (loosens : loose.Loosens strict) {place : σ}
    {earlier members : List (Text × Value)}
    (h : strict.acceptsMembers place earlier members = true) :
    loose.acceptsMembers place earlier members = true := by
  cases members with
  | nil => rfl
  | cons member members =>
    obtain ⟨key, value⟩ := member
    obtain ⟨next, hmember, hvalue, hmembers⟩ := strict.acceptsMembers_cons_iff.mp h
    exact loose.acceptsMembers_cons_iff.mpr
      ⟨next, loosens.member hmember, Loosens.accepts loosens hvalue,
        Loosens.acceptsMembers loosens hmembers⟩

end

end

variable (schema : Schema σ)

/-- The schema without what only a whole object shows. -/
def unclosed : Schema σ :=
  { schema with mayClose := fun _ _ => true }

theorem unclosed_loosens : schema.unclosed.Loosens schema where
  fits h := h
  takesArray h := h
  takesObject h := h
  item h := h
  member h := h
  mayClose _ := rfl
  skips _ := rfl

/-- The schema with nothing left but the grammar. -/
def shapeless : Schema σ where
  fits _ _ := true
  takesArray _ := true
  takesObject _ := true
  item place items := some ((schema.item place items).getD place)
  member place members key := some ((schema.member place members key).getD place)
  mayClose _ _ := true
  skips := schema.skips

theorem shapeless_loosens : schema.shapeless.Loosens schema where
  fits _ := rfl
  takesArray _ := rfl
  takesObject _ := rfl
  item h := by simp only [shapeless, h, Option.getD_some]
  member h := by simp only [shapeless, h, Option.getD_some]
  mayClose _ := rfl
  skips _ := rfl

theorem shapeless_takesAll : schema.shapeless.TakesAll fun _ => True where
  fits _ _ := rfl
  takesArray _ := rfl
  takesObject _ := rfl
  item _ _ := ⟨_, rfl, trivial⟩
  member _ _ _ := ⟨_, rfl, trivial⟩
  mayClose _ _ := rfl

variable {schema}

theorem shapeless_region (h : ∀ place, schema.skips place = false) :
    schema.shapeless.Region true fun _ => True where
  skips _ := h _
  item _ _ := trivial
  member _ _ := trivial

end FeatureLines.Json.Schema
