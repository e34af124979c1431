import FeatureLines.Proofs.Json.Members
import FeatureLines.Proofs.Json.Tokens

/-!
# Readings that can be completed

With a schema that takes anything some text leads from nearly everywhere to a
value: the token that has been begun is ended, and what is open is closed
(`TakesAll.readFrom_closers`). The exceptions, in
`TakesAll.cases_of_not_completes`, are the tokens that are judged as a whole:
the digits of an escape, and a number that is out of range and can only grow.
-/

namespace FeatureLines.Json

/-- The closing characters of the arrays and objects that are open. -/
def closers {σ : Type} : List (Frame σ) → Text
  | [] => []
  | .item _ _ :: stack => ']' :: closers stack
  | .member _ _ _ :: stack => '\x7d' :: closers stack

theorem stopsNumber_closers {σ : Type} (stack : List (Frame σ)) : StopsNumber (closers stack) := by
  cases stack with
  | nil => exact stopsNumber_nil
  | cons frame stack =>
    cases frame with
    | item => exact Schema.stopsNumber_cons (.inr (.inl rfl)) _
    | member => exact Schema.stopsNumber_cons (.inr (.inr rfl)) _

namespace Schema

variable {σ : Type} {schema : Schema σ}

/-- Some text leads from where the reading stands to a value. -/
def Completes (schema : Schema σ) (state : State σ) : Prop :=
  ∃ text w, schema.readFrom state text = .ok w

theorem completes_of_step {state next : State σ} {c : Char} (h : schema.step state c = .ok next)
    (completes : schema.Completes next) : ∃ text w, schema.readFrom state (c :: text) = .ok w := by
  obtain ⟨text, w, hread⟩ := completes
  exact ⟨text, w, by rw [readFrom_cons, h, readOn_ok, hread]⟩

section

variable (all : schema.TakesAll fun _ => True) (region : schema.Region true fun _ => True)
include all

/-- Behind a value nothing is needed but to close what is open. -/
theorem TakesAll.readFrom_closers (value : Value) (stack : List (Frame σ)) :
    ∃ w, schema.readFrom (deliver value stack) (closers stack) = .ok w := by
  induction stack generalizing value with
  | nil => exact ⟨value, rfl⟩
  | cons frame stack ih =>
    cases frame with
    | item place items => exact ih _
    | member place members key =>
      obtain ⟨w, hread⟩ := ih (.object ((key, value) :: members).reverse)
      refine ⟨w, ?_⟩
      show schema.readFrom (.afterMember place _ stack) ('\x7d' :: closers stack) = _
      rw [readFrom_cons]
      show schema.readOn (schema.closeObject place ((key, value) :: members) stack) _ = _
      rw [closeObject, if_pos (all.mayClose trivial _), readOn_ok, hread]

theorem TakesAll.completes_deliver (value : Value) (stack : List (Frame σ)) :
    schema.Completes (deliver value stack) :=
  ⟨_, all.readFrom_closers value stack⟩

theorem TakesAll.readOn_scalar_closers (place : σ) (value : Value) (stack : List (Frame σ)) :
    ∃ w, schema.readOn (schema.scalar place value stack) (closers stack) = .ok w := by
  rw [readOn_scalar (all.fits trivial value)]
  exact all.readFrom_closers value stack

theorem TakesAll.completes_word (place : σ) (value : Value) (next : Char) (rest : Text)
    (stack : List (Frame σ)) : schema.Completes (.word place value next rest stack) := by
  obtain ⟨w, hread⟩ := all.readOn_scalar_closers place value stack
  exact ⟨next :: (rest ++ closers stack), w, by rw [readFrom_word, hread]⟩

theorem TakesAll.completes_value (place : σ) (stack : List (Frame σ)) :
    schema.Completes (.value place stack) := by
  have hstart : schema.step (.value place stack) 'n' =
      .ok (.word place .null 'u' ['l', 'l'] stack) := rfl
  obtain ⟨text, w, hread⟩ := completes_of_step hstart (all.completes_word place _ _ _ stack)
  exact ⟨_, w, hread⟩

theorem TakesAll.completes_colon (place next : σ) (members : List (Text × Value)) (key : Text)
    (stack : List (Frame σ)) : schema.Completes (.colon place members key next stack) := by
  have hcolon : schema.step (.colon place members key next stack) ':' =
      .ok (.value next (.member place members key :: stack)) := rfl
  obtain ⟨text, w, hread⟩ := completes_of_step hcolon (all.completes_value next _)
  exact ⟨_, w, hread⟩

theorem TakesAll.completes_afterMember (place : σ) (members : List (Text × Value))
    (stack : List (Frame σ)) : schema.Completes (.afterMember place members stack) := by
  have hclose : schema.step (.afterMember place members stack) '\x7d' =
      .ok (deliver (.object members.reverse) stack) := if_pos (all.mayClose trivial _)
  obtain ⟨text, w, hread⟩ := completes_of_step hclose (all.completes_deliver _ stack)
  exact ⟨_, w, hread⟩

theorem TakesAll.completes_firstItem (place : σ) (stack : List (Frame σ)) :
    schema.Completes (.firstItem place stack) := by
  have hclose : schema.step (.firstItem place stack) ']' = .ok (deliver (.array []) stack) := rfl
  obtain ⟨text, w, hread⟩ := completes_of_step hclose (all.completes_deliver _ stack)
  exact ⟨_, w, hread⟩

theorem TakesAll.completes_afterItem (place : σ) (items : List Value) (stack : List (Frame σ)) :
    schema.Completes (.afterItem place items stack) := by
  have hclose : schema.step (.afterItem place items stack) ']' =
      .ok (deliver (.array items.reverse) stack) := rfl
  obtain ⟨text, w, hread⟩ := completes_of_step hclose (all.completes_deliver _ stack)
  exact ⟨_, w, hread⟩

theorem TakesAll.completes_firstKey (place : σ) (stack : List (Frame σ)) :
    schema.Completes (.firstKey place stack) := by
  have hclose : schema.step (.firstKey place stack) '\x7d' = .ok (deliver (.object []) stack) :=
    if_pos (all.mayClose trivial _)
  obtain ⟨text, w, hread⟩ := completes_of_step hclose (all.completes_deliver _ stack)
  exact ⟨_, w, hread⟩

include region

theorem TakesAll.completes_key (place : σ) (members : List (Text × Value)) {scan : QuotedScan}
    (h : ∀ seen, scan.place.pending? = some seen → seen = []) (stack : List (Frame σ)) :
    schema.Completes (.key place members scan stack) := by
  obtain ⟨y, t, hclosed⟩ := scan.exists_closed h
  obtain ⟨next, hmember, -⟩ := all.member trivial members t
  obtain ⟨text, w, hread⟩ := all.completes_colon place next members t stack
  have hkept : (!schema.skips place) = true := by rw [region.skips trivial]; rfl
  refine ⟨y ++ '"' :: text, w, ?_⟩
  rw [readFrom_key, hkept, hclosed, afterQuoted, closeKey, hmember, readOn_ok, hread]

theorem TakesAll.completes_nextKey (place : σ) (members : List (Text × Value))
    (stack : List (Frame σ)) : schema.Completes (.nextKey place members stack) := by
  have hquote : schema.step (.nextKey place members stack) '"' =
      .ok (.key place members .start stack) := rfl
  have hstart : ∀ seen, QuotedScan.start.place.pending? = some seen → seen = [] :=
    fun _ h => nomatch h
  obtain ⟨text, w, hread⟩ :=
    completes_of_step hquote (all.completes_key region place members hstart stack)
  exact ⟨_, w, hread⟩

theorem TakesAll.completes_quoted (place : σ) {scan : QuotedScan}
    (h : ∀ seen, scan.place.pending? = some seen → seen = []) (stack : List (Frame σ)) :
    schema.Completes (.quoted place scan stack) := by
  obtain ⟨y, t, hclosed⟩ := scan.exists_closed h
  obtain ⟨w, hread⟩ := all.readOn_scalar_closers place (.text t) stack
  have hkept : (!schema.skips place) = true := by rw [region.skips trivial]; rfl
  exact ⟨y ++ '"' :: closers stack, w, by rw [readFrom_quoted, hkept, hclosed, afterQuoted, hread]⟩

omit region in
theorem TakesAll.completes_number_of_stopped (place : σ) {scan : NumberScan} {y : Text} {n : Number}
    (range : n.inRange = true) (stack : List (Frame σ))
    (hread : ∀ rest, StopsNumber rest → scan.read (y ++ rest) = .stopped n rest) :
    schema.Completes (.number place scan stack) := by
  obtain ⟨w, hclosed⟩ := all.readOn_scalar_closers place (.number n) stack
  refine ⟨y ++ closers stack, w, ?_⟩
  rw [readFrom_number, hread _ (stopsNumber_closers stack), afterNumber, closeNumber, range,
    Bool.or_true, if_pos rfl, hclosed]

omit region in
/-- An exponent may be zero, which leaves a number in range. -/
theorem TakesAll.completes_markSign (place : σ) {n : Number} (none : n.exponent = [])
    (range : (NumberScan.mk .markSign n).value.inRange = true) (stack : List (Frame σ)) :
    schema.Completes (.number place ⟨.markSign, n⟩ stack) := by
  have hzero : NumberScan.step ⟨.markSign, n⟩ '0' = .more ⟨.exponent, { n with exponent := [0] }⟩ :=
    rfl
  have hrange : (NumberScan.mk .exponent { n with exponent := [0] }).value.inRange = true := by
    rw [← range]
    simp only [Number.inRange, Number.scaled, NumberScan.value, none]
    rfl
  refine all.completes_number_of_stopped place hrange stack (y := ['0']) fun rest stops => ?_
  rw [List.singleton_append, NumberScan.read_cons, hzero]
  exact NumberScan.read_of_mayEnd rfl stops

omit region in
theorem TakesAll.completes_number (place : σ) {scan : NumberScan} (mends : scan.Mends)
    (stack : List (Frame σ)) : schema.Completes (.number place scan stack) := by
  obtain ⟨y, n, range, hread⟩ := mends.exists_inRange
  exact all.completes_number_of_stopped place range stack hread

/-- A reading that cannot be completed stands behind the first digits of an escape, or in a number
that is out of range and can only grow. -/
theorem TakesAll.cases_of_not_completes {state : State σ} (h : ¬ schema.Completes state) :
    (∃ seen, state.pending? = some seen ∧ seen ≠ [])
      ∨ ∃ place scan stack, state = .number place scan stack ∧ ¬ scan.Mends
        ∧ (scan.phase.mayEnd = true → scan.value.inRange = false) := by
  cases state with
  | value place stack => exact absurd (all.completes_value place stack) h
  | firstItem place stack => exact absurd (all.completes_firstItem place stack) h
  | afterItem place items stack => exact absurd (all.completes_afterItem place items stack) h
  | firstKey place stack => exact absurd (all.completes_firstKey place stack) h
  | nextKey place members stack => exact absurd (all.completes_nextKey region place members stack) h
  | colon place members key next stack =>
    exact absurd (all.completes_colon place next members key stack) h
  | afterMember place members stack =>
    exact absurd (all.completes_afterMember place members stack) h
  | word place value next rest stack =>
    exact absurd (all.completes_word place value next rest stack) h
  | done value => exact absurd ⟨[], value, rfl⟩ h
  | key place members scan stack =>
    by_cases hpending : ∃ seen, scan.place.pending? = some seen ∧ seen ≠ []
    · exact .inl hpending
    · refine absurd (all.completes_key region place members (fun seen hseen => ?_) stack) h
      exact Decidable.byContradiction fun hne => hpending ⟨seen, hseen, hne⟩
  | quoted place scan stack =>
    by_cases hpending : ∃ seen, scan.place.pending? = some seen ∧ seen ≠ []
    · exact .inl hpending
    · refine absurd (all.completes_quoted region place (fun seen hseen => ?_) stack) h
      exact Decidable.byContradiction fun hne => hpending ⟨seen, hseen, hne⟩
  | number place scan stack =>
    refine .inr ⟨place, scan, stack, rfl, fun hmends => ?_, fun hend => ?_⟩
    · exact h (all.completes_number place hmends stack)
    · cases hrange : scan.value.inRange with
      | false => rfl
      | true =>
        have hread : ∀ rest, StopsNumber rest → scan.read ([] ++ rest) = .stopped scan.value rest :=
          fun rest stops => NumberScan.read_of_mayEnd hend stops
        exact absurd (all.completes_number_of_stopped place hrange stack hread) h

theorem TakesAll.completes_of_scan? {state : State σ} {scan : QuotedScan}
    (hscan : state.scan? = some scan)
    (h : ∀ seen, scan.place.pending? = some seen → seen = []) : schema.Completes state := by
  cases state with
  | key place members scan stack =>
    obtain rfl := Option.some.inj hscan
    exact all.completes_key region place members h stack
  | quoted place scan stack =>
    obtain rfl := Option.some.inj hscan
    exact all.completes_quoted region place h stack
  | _ => cases hscan

/-- Between the characters of a string a letter may stand. -/
theorem TakesAll.exists_readFrom_letter {state : State σ} {scan : QuotedScan}
    (hscan : state.scan? = some scan) (hplain : scan.place = .plain) :
    ∃ text w, schema.readFrom state ('Z' :: text) = .ok w := by
  obtain ⟨place, reversed⟩ := scan
  obtain rfl : place = .plain := hplain
  have hstep (kept : Bool) : QuotedScan.step kept ⟨.plain, reversed⟩ 'Z' =
    .more ⟨.plain, 'Z' :: reversed⟩ := rfl
  have hnone : ∀ seen, (QuotedScan.mk .plain ('Z' :: reversed)).place.pending? = some seen →
      seen = [] := nofun
  cases state with
  | key place members scan stack =>
    obtain rfl := Option.some.inj hscan
    refine completes_of_step ?_ (all.completes_key region place members hnone stack)
    simp only [Schema.step, stepToken, hstep]
  | quoted place scan stack =>
    obtain rfl := Option.some.inj hscan
    refine completes_of_step ?_ (all.completes_quoted region place hnone stack)
    simp only [Schema.step, stepToken, hstep]
  | _ => cases hscan

end

end Schema

end FeatureLines.Json
