import FeatureLines.Proofs.Json.Scans
import FeatureLines.Proofs.Json.Steps

/-!
# Tokens that have been begun

Where the reading stands in a number, the text read so far ends in the text of
this number (`exists_begins_of_run`); where it stands in the digits of an
escape, the text ends in the escape (`exists_escape_of_run`). Both go back over
the text one character at a time.

In the other direction some characters tell where they stand: a backslash in a
string, and what begins a number where a value begins, in a string or in a
number (`Moves.cases_of_start?`). That no word holds them needs that only words
are being read as words, which `LeadsTo` keeps together with the places.
-/

namespace FeatureLines.Json

/-- The string in which the reading stands. -/
def State.scan? {σ : Type} : State σ → Option QuotedScan
  | .key _ _ scan _ | .quoted _ scan _ => some scan
  | _ => none

/-- The digits of an escape in which the reading stands. -/
def State.pending? {σ : Type} (state : State σ) : Option Text :=
  state.scan?.bind fun scan => scan.place.pending?

namespace Schema

variable {σ : Type} {schema : Schema σ}

/-! ## Where places stand -/

/-- The places that a schema leads to from a first one, each inside the frames on the way. -/
inductive Leads (schema : Schema σ) (first : σ) : σ → List (Frame σ) → Prop where
  | first : Leads schema first first []
  | item {place next : σ} {items : List Value} {stack : List (Frame σ)}
      (leads : Leads schema first place stack) (item : schema.item place items = some next) :
      Leads schema first next (.item place items :: stack)
  | member {place next : σ} {members : List (Text × Value)} {key : Text} {stack : List (Frame σ)}
      (leads : Leads schema first place stack)
      (member : schema.member place members key = some next) :
      Leads schema first next (.member place members key :: stack)

/-- The reading stands where the schema leads to, and in a word only before letters. -/
def LeadsTo (schema : Schema σ) (first : σ) : State σ → Prop
  | .value place stack | .firstItem place stack | .afterItem place _ stack
  | .firstKey place stack | .nextKey place _ stack | .afterMember place _ stack
  | .key place _ _ stack | .quoted place _ stack | .number place _ stack =>
    schema.Leads first place stack
  | .colon place members key next stack =>
    schema.Leads first place stack ∧ schema.member place members key = some next
  | .word place _ next rest stack =>
    schema.Leads first place stack ∧ ∀ c ∈ next :: rest, c.isAlpha = true
  | .done _ => True

variable {first : σ}

theorem Leads.deliver {place : σ} {stack : List (Frame σ)} (h : schema.Leads first place stack)
    (value : Value) : schema.LeadsTo first (deliver value stack) := by
  cases h with
  | first => exact trivial
  | item leads => exact leads
  | member leads => exact leads

theorem Starts.leadsTo {place : σ} {stack : List (Frame σ)} {c : Char} {next : State σ}
    (starts : schema.Starts place stack c next) (h : schema.Leads first place stack) :
    schema.LeadsTo first next := by
  cases starts with
  | null => exact ⟨h, List.all_eq_true.mp rfl⟩
  | true => exact ⟨h, List.all_eq_true.mp rfl⟩
  | false => exact ⟨h, List.all_eq_true.mp rfl⟩
  | _ => exact h

theorem Moves.leadsTo {state next : State σ} {c : Char} (moves : schema.Moves state c next)
    (h : schema.LeadsTo first state) : schema.LeadsTo first next := by
  induction moves with
  | space => exact h
  | value starts => exact starts.leadsTo h
  | firstItem item starts => exact starts.leadsTo (.item h item)
  | emptyArray => exact h.deliver _
  | closeArray => exact h.deliver _
  | nextItem item => exact .item h item
  | emptyObject => exact h.deliver _
  | firstKey => exact h
  | nextKey => exact h
  | colon => exact .member h.1 h.2
  | closeObject => exact h.deliver _
  | nextMember => exact h
  | key => exact h
  | keyClosed _ member => exact ⟨h, member⟩
  | quoted => exact h
  | quotedClosed => exact h.deliver _
  | word => exact ⟨h.1, fun c hc => h.2 c (List.mem_cons_of_mem _ hc)⟩
  | wordClosed => exact h.1.deliver _
  | number => exact h
  | numberEnded _ _ ih => exact ih (Leads.deliver h _)

theorem run_leadsTo {state next : State σ} {text : Text} (h : schema.LeadsTo first state)
    (hrun : schema.run state text = .ok next) : schema.LeadsTo first next := by
  induction text generalizing state with
  | nil =>
    cases hrun
    exact h
  | cons c text ih =>
    obtain ⟨later, hstep, hlater⟩ := exists_step_of_run_cons hrun
    exact ih ((moves_of_step hstep).leadsTo h) hlater

/-! ## How a token has been begun -/

theorem scan?_of_betweenTokens {state : State σ} (h : state.betweenTokens = true) :
    state.scan? = none := by
  cases state <;> simp [State.betweenTokens, State.scan?] at h ⊢

theorem betweenTokens_deliver (value : Value) (stack : List (Frame σ)) :
    (deliver value stack).betweenTokens = true := by
  rcases stack with _ | ⟨frame, stack⟩
  · rfl
  · cases frame <;> rfl

theorem Starts.scan?_eq {place : σ} {stack : List (Frame σ)} {c : Char} {next : State σ}
    (starts : schema.Starts place stack c next) {scan : QuotedScan} (h : next.scan? = some scan) :
    scan = .start := by
  cases starts with
  | text => exact (Option.some.inj h).symm
  | _ => cases h

/-- A string has been begun just now, or was being read before. -/
theorem Moves.scan?_cases {state next : State σ} {c : Char} (moves : schema.Moves state c next)
    {scan : QuotedScan} (h : next.scan? = some scan) :
    scan = .start ∨ ∃ kept earlier, state.scan? = some earlier
      ∧ earlier.step kept c = .more scan := by
  induction moves with
  | space between =>
    rw [scan?_of_betweenTokens between] at h
    cases h
  | value starts => exact .inl (starts.scan?_eq h)
  | firstItem _ starts => exact .inl (starts.scan?_eq h)
  | firstKey => exact .inl (Option.some.inj h).symm
  | nextKey => exact .inl (Option.some.inj h).symm
  | key more =>
    obtain rfl := Option.some.inj h
    exact .inr ⟨_, _, rfl, more⟩
  | quoted more =>
    obtain rfl := Option.some.inj h
    exact .inr ⟨_, _, rfl, more⟩
  | numberEnded _ _ ih =>
    rcases ih h with hstart | ⟨_, earlier, hearlier, -⟩
    · exact .inl hstart
    · rw [scan?_of_betweenTokens (betweenTokens_deliver _ _)] at hearlier
      cases hearlier
  | emptyArray | closeArray | emptyObject | closeObject | quotedClosed | wordClosed =>
    rw [scan?_of_betweenTokens (betweenTokens_deliver _ _)] at h
    cases h
  | nextItem | colon | nextMember | keyClosed | word | number => cases h

/-- Inside a string it is the string that takes the character. -/
theorem Moves.exists_more_of_scan? {state next : State σ} {c : Char}
    (moves : schema.Moves state c next) {scan : QuotedScan} (h : state.scan? = some scan)
    (hquote : c ≠ '"') :
    ∃ kept later, next.scan? = some later ∧ scan.step kept c = .more later := by
  cases moves with
  | key more =>
    obtain rfl := Option.some.inj h
    exact ⟨_, _, rfl, more⟩
  | quoted more =>
    obtain rfl := Option.some.inj h
    exact ⟨_, _, rfl, more⟩
  | keyClosed closed => exact absurd (QuotedScan.eq_quote_of_closed closed) hquote
  | quotedClosed closed => exact absurd (QuotedScan.eq_quote_of_closed closed) hquote
  | space between =>
    rw [scan?_of_betweenTokens between] at h
    cases h
  | _ => cases h

/-- Where the reading stands, the next token begins a value at this place. -/
inductive Begins (schema : Schema σ) (place : σ) (stack : List (Frame σ)) : State σ → Prop where
  | value : Begins schema place stack (.value place stack)
  | firstItem {outer : σ} {rest : List (Frame σ)} (item : schema.item outer [] = some place)
      (inside : stack = .item outer [] :: rest) : Begins schema place stack (.firstItem outer rest)

theorem Begins.step_eq {place : σ} {stack : List (Frame σ)} {state : State σ}
    (begins : schema.Begins place stack state) {c : Char} (hspace : isSpace c = false)
    (hbracket : c ≠ ']') : schema.step state c = schema.startValue place stack c := by
  cases begins with
  | value => simp only [step, stepToken, hspace, Bool.false_eq_true, if_false]
  | firstItem item inside =>
    subst inside
    simp only [step, stepToken, hspace, Bool.false_eq_true, if_false, hbracket, item]

theorem Starts.number_eq {place : σ} {stack : List (Frame σ)} {c : Char} {next : State σ}
    (starts : schema.Starts place stack c next) {place' : σ} {scan : NumberScan}
    {stack' : List (Frame σ)} (h : next = .number place' scan stack') :
    NumberScan.start? c = some scan ∧ place' = place ∧ stack' = stack := by
  cases starts with
  | number start =>
    cases h
    exact ⟨start, rfl, rfl⟩
  | _ => cases h

theorem deliver_ne_number {value : Value} {frames : List (Frame σ)} {place : σ} {scan : NumberScan}
    {stack : List (Frame σ)} : deliver value frames ≠ .number place scan stack := by
  intro h
  have hbetween := betweenTokens_deliver value frames
  rw [h] at hbetween
  cases hbetween

theorem not_begins_deliver {value : Value} {frames : List (Frame σ)} {place : σ}
    {stack : List (Frame σ)} : ¬ schema.Begins place stack (deliver value frames) := by
  rcases frames with _ | ⟨frame, frames⟩
  · exact nofun
  · cases frame <;> exact nofun

/-- A number has been begun just now, or was being read before. -/
theorem Moves.number_cases {state next : State σ} {c : Char} (moves : schema.Moves state c next)
    {place : σ} {scan : NumberScan} {stack : List (Frame σ)} (h : next = .number place scan stack) :
    (NumberScan.start? c = some scan ∧ schema.Begins place stack state)
      ∨ ∃ earlier, state = .number place earlier stack ∧ earlier.step c = .more scan := by
  induction moves with
  | space between =>
    subst h
    cases between
  | value starts =>
    obtain ⟨hstart, rfl, rfl⟩ := starts.number_eq h
    exact .inl ⟨hstart, .value⟩
  | firstItem item starts =>
    obtain ⟨hstart, rfl, rfl⟩ := starts.number_eq h
    exact .inl ⟨hstart, .firstItem item rfl⟩
  | number more =>
    cases h
    exact .inr ⟨_, rfl, more⟩
  | numberEnded _ _ ih =>
    rcases ih h with ⟨-, hbegins⟩ | ⟨_, hearlier, -⟩
    · exact absurd hbegins not_begins_deliver
    · exact absurd hearlier deliver_ne_number
  | emptyArray | closeArray | emptyObject | closeObject | quotedClosed | wordClosed =>
    exact absurd h deliver_ne_number
  | _ => cases h

/-- Where a number is being read, the text ends in what has been read of it, from where it was
begun. It has no digits of an exponent outside one. -/
theorem exists_begins_of_run {state : State σ}
    (outside : ∀ place scan stack, state ≠ .number place scan stack) {text : Text} {place : σ}
    {scan : NumberScan} {stack : List (Frame σ)}
    (hrun : schema.run state text = .ok (.number place scan stack)) :
    (∃ v c s first begun, text = v ++ c :: s ∧ schema.run state v = .ok begun
      ∧ schema.Begins place stack begun ∧ NumberScan.start? c = some first
      ∧ ∀ rest, first.read (s ++ rest) = scan.read rest)
      ∧ (scan.phase ≠ .exponent → scan.reversed.exponent = []) := by
  rcases List.eq_nil_or_concat text with hnil | ⟨before, c, hconcat⟩
  · rw [hnil] at hrun
    cases hrun
    exact absurd rfl (outside _ _ _)
  · rw [List.concat_eq_append] at hconcat
    rw [hconcat] at hrun ⊢
    obtain ⟨last, hlast, moves⟩ := exists_of_run_concat hrun
    rcases moves.number_cases rfl with ⟨hstart, hbegins⟩ | ⟨earlier, rfl, hmore⟩
    · exact ⟨⟨before, c, [], scan, last, rfl, hlast, hbegins, hstart, fun _ => rfl⟩,
        fun _ => NumberScan.exponent_of_start? hstart⟩
    · obtain ⟨⟨v, d, s, first, begun, hsplit, hbegun, hbegins, hstart, hread⟩, hexponent⟩ :=
        exists_begins_of_run outside hlast
      refine ⟨⟨v, d, s ++ [c], first, begun, by simp [hsplit], hbegun, hbegins, hstart, ?_⟩,
        NumberScan.exponent_of_step hmore hexponent⟩
      intro rest
      rw [List.append_assoc, hread, List.singleton_append, NumberScan.read_cons, hmore]
termination_by text.length
decreasing_by simp [hconcat]

/-! ## Where a character may stand -/

/-- Behind a value stand only space, commas and what closes an array or an object. -/
theorem cases_of_moves_deliver {value : Value} {frames : List (Frame σ)} {c : Char}
    {next : State σ} (moves : schema.Moves (deliver value frames) c next) :
    isSpace c = true ∨ c = ',' ∨ c = ']' ∨ c = '\x7d' := by
  rcases frames with _ | ⟨frame, frames⟩
  · cases moves with
    | space _ hspace => exact .inl hspace
  · cases frame with
    | item =>
      cases moves with
      | space _ hspace => exact .inl hspace
      | closeArray => simp
      | nextItem => simp
    | member =>
      cases moves with
      | space _ hspace => exact .inl hspace
      | closeObject => simp
      | nextMember => simp

/-- A backslash stands in a string. -/
theorem Moves.exists_scan_of_backslash {state next : State σ}
    (moves : schema.Moves state '\\' next) (h : schema.LeadsTo first state) :
    ∃ scan, state.scan? = some scan := by
  cases moves with
  | space _ hspace => exact absurd hspace (by decide)
  | value starts => cases starts with | number start => cases start
  | firstItem _ starts => cases starts with | number start => cases start
  | key => exact ⟨_, rfl⟩
  | keyClosed => exact ⟨_, rfl⟩
  | quoted => exact ⟨_, rfl⟩
  | quotedClosed => exact ⟨_, rfl⟩
  | word => exact absurd (h.2 '\\' (by simp)) (by decide)
  | wordClosed => exact absurd (h.2 '\\' (by simp)) (by decide)
  | @number _ scan _ _ _ more =>
    obtain ⟨phase, reversed⟩ := scan
    cases phase <;> cases more
  | numberEnded _ moves =>
    have hchar := cases_of_moves_deliver moves
    exact absurd hchar (by decide)

/-- What begins a number stands where a value begins, or in a string or a number. -/
theorem Moves.cases_of_start? {state next : State σ} {c : Char} (moves : schema.Moves state c next)
    {scan : NumberScan} (hstart : NumberScan.start? c = some scan)
    (h : schema.LeadsTo first state) :
    (∃ place stack, schema.Begins place stack state)
      ∨ (∃ earlier, state.scan? = some earlier)
      ∨ ∃ place earlier stack, state = .number place earlier stack := by
  obtain ⟨hspace, hbracket, -, -, hquote, -⟩ := ne_of_start? hstart
  obtain ⟨halpha, hcomma, hcolon, hbrace, -⟩ := NumberScan.ne_mark_of_start? hstart
  cases moves with
  | space _ hspace' =>
    rw [hspace] at hspace'
    cases hspace'
  | value => exact .inl ⟨_, _, .value⟩
  | firstItem item => exact .inl ⟨_, _, .firstItem item rfl⟩
  | emptyArray => exact absurd rfl hbracket
  | closeArray => exact absurd rfl hbracket
  | nextItem => exact absurd rfl hcomma
  | nextMember => exact absurd rfl hcomma
  | emptyObject => exact absurd rfl hbrace
  | closeObject => exact absurd rfl hbrace
  | firstKey => exact absurd rfl hquote
  | nextKey => exact absurd rfl hquote
  | colon => exact absurd rfl hcolon
  | key => exact .inr (.inl ⟨_, rfl⟩)
  | keyClosed => exact .inr (.inl ⟨_, rfl⟩)
  | quoted => exact .inr (.inl ⟨_, rfl⟩)
  | quotedClosed => exact .inr (.inl ⟨_, rfl⟩)
  | word =>
    have hletter := h.2 c (by simp)
    rw [halpha] at hletter
    cases hletter
  | wordClosed =>
    have hletter := h.2 c (by simp)
    rw [halpha] at hletter
    cases hletter
  | number => exact .inr (.inr ⟨_, _, _, rfl⟩)
  | numberEnded => exact .inr (.inr ⟨_, _, _, rfl⟩)

/-! ## How a number is gone on with -/

/-- A number that is read to its end may end there. -/
theorem exists_run_of_read_stopped {scan : NumberScan} {text : Text} {n : Number}
    (h : scan.read text = .stopped n []) (place : σ) (stack : List (Frame σ)) :
    ∃ later, schema.run (.number place scan stack) text = .ok (.number place later stack)
      ∧ later.phase.mayEnd = true ∧ later.value = n := by
  induction text generalizing scan with
  | nil =>
    rw [NumberScan.read] at h
    split at h
    · next hend =>
      cases h
      exact ⟨scan, rfl, hend, rfl⟩
    · cases h
  | cons c text ih =>
    rw [NumberScan.read_cons] at h
    cases hstep : scan.step c with
    | more later =>
      rw [hstep] at h
      rw [run, Schema.step, hstep]
      exact ih h
    | ended => rw [hstep] at h; cases h
    | refused => rw [hstep] at h; cases h

/-- A number that is read fits its place. -/
theorem exists_fits_of_readFrom_number {place : σ} {scan : NumberScan} {stack : List (Frame σ)}
    {text : Text} {w : Value} (h : schema.readFrom (.number place scan stack) text = .ok w) :
    ∃ n, schema.fits place (.number n) = true := by
  rw [readFrom_number] at h
  cases hread : scan.read text with
  | refused => rw [hread] at h; cases h
  | unfinished => rw [hread] at h; cases h
  | stopped n rest =>
    rw [hread, afterNumber, closeNumber] at h
    split at h
    · exact ⟨n, (readOn_scalar_eq_ok_iff.mp h).1⟩
    · cases h

/-- The mark of an exponent goes on with a number that has no exponent. -/
theorem Moves.eq_of_mark {place : σ} {scan : NumberScan} {stack : List (Frame σ)} {mark : Char}
    {next : State σ} (moves : schema.Moves (.number place scan stack) mark next)
    (isMark : mark = 'e' ∨ mark = 'E') (hend : scan.phase.mayEnd = true) :
    next = .number place ⟨.mark, scan.reversed⟩ stack := by
  obtain ⟨phase, reversed⟩ := scan
  have hdigit : digit? mark = none := by
    rcases isMark with rfl | rfl <;> decide
  have hpoint : mark ≠ '.' := by
    rcases isMark with rfl | rfl <;> decide
  cases moves with
  | space between => cases between
  | number more =>
    cases phase with
    | zero | whole | fraction =>
      simp only [NumberScan.step, hdigit, NumberScan.afterWhole, hpoint, if_false, isMark,
        if_true] at more
      cases more
      rfl
    | exponent =>
      simp only [NumberScan.step, hdigit] at more
      cases more
    | sign | point | mark | markSign => cases hend
  | numberEnded _ moves =>
    have hchar := cases_of_moves_deliver moves
    rcases isMark with rfl | rfl <;> exact absurd hchar (by decide)

/-! ## How an escape has been begun -/

theorem exists_scan_of_pending {state : State σ} {seen : Text} (h : state.pending? = some seen) :
    ∃ scan, state.scan? = some scan ∧ scan.place.pending? = some seen := by
  unfold State.pending? at h
  exact Option.bind_eq_some_iff.mp h

section

variable (region : schema.Region true fun _ => True)
include region

/-- Inside a string reading comes to what reading the string comes to. -/
theorem Region.exists_readFrom_eq_of_scan? {state : State σ} {scan : QuotedScan}
    (h : state.scan? = some scan) :
    ∃ behind, ∀ text,
      schema.readFrom state text = schema.afterQuoted behind (scan.read true text) := by
  cases state with
  | key place members scan stack =>
    obtain rfl := Option.some.inj h
    refine ⟨fun key => schema.closeKey place members key stack, fun text => ?_⟩
    rw [readFrom_key, region.skips trivial, Bool.not_not]
  | quoted place scan stack =>
    obtain rfl := Option.some.inj h
    refine ⟨fun t => schema.scalar place (.text t) stack, fun text => ?_⟩
    rw [readFrom_quoted, region.skips trivial, Bool.not_not]
  | _ => cases h

/-- The digits of an escape go on with nothing else. -/
theorem Region.readFrom_ne_ok_of_pending {state : State σ} {seen : Text}
    (h : state.pending? = some seen) {c : Char} (hc : hexDigit? c = none) (text : Text)
    (w : Value) : schema.readFrom state (c :: text) ≠ .ok w := by
  obtain ⟨⟨place, reversed⟩, hscan, hseen⟩ := exists_scan_of_pending h
  obtain ⟨behind, hread⟩ := region.exists_readFrom_eq_of_scan? hscan
  rw [hread]
  intro hok
  obtain ⟨_, _, hclosed, -⟩ := exists_of_afterQuoted hok
  exact QuotedScan.read_ne_closed_of_pending hseen hc hclosed

/-- Up to the fourth byte the digits of an escape are not judged. -/
theorem Region.readFrom_of_pending {state : State σ} {seen text : Text}
    (h : state.pending? = some seen) (short : Utf8.width (seen ++ text) < 4) :
    schema.readFrom state text = .error .truncated := by
  obtain ⟨⟨place, reversed⟩, hscan, hseen⟩ := exists_scan_of_pending h
  obtain ⟨behind, hread⟩ := region.exists_readFrom_eq_of_scan? hscan
  obtain ⟨toPlace, judge, gathers, rfl⟩ := QuotedScan.exists_gathers hseen reversed
  rw [hread, gathers.read_eq_unfinished short, afterQuoted]

/-- No string begins where a string or a number takes what begins a number. -/
theorem Region.readFrom_quotes_ne_ok {state : State σ} {scan later : QuotedScan} {kept : Bool}
    {c : Char} {number : NumberScan} (hscan : state.scan? = some scan)
    (hmore : scan.step kept c = .more later) (hstart : NumberScan.start? c = some number)
    (text : Text) (w : Value) : schema.readFrom state ('"' :: '"' :: text) ≠ .ok w := by
  intro hread
  cases state with
  | key place members scan stack =>
    obtain rfl := Option.some.inj hscan
    rw [readFrom_key, region.skips trivial, Bool.not_not] at hread
    obtain ⟨key, rest, hclosed, hread⟩ := exists_of_afterQuoted hread
    obtain rfl := QuotedScan.eq_of_read_quote hmore hstart hclosed
    cases hmember : schema.member place members key with
    | none => simp only [closeKey, hmember, readOn_error] at hread; cases hread
    | some next => simp only [closeKey, hmember, readOn_ok] at hread; cases hread
  | quoted place scan stack =>
    obtain rfl := Option.some.inj hscan
    rw [readFrom_quoted, region.skips trivial, Bool.not_not] at hread
    obtain ⟨t, rest, hclosed, hread⟩ := exists_of_afterQuoted hread
    obtain rfl := QuotedScan.eq_of_read_quote hmore hstart hclosed
    obtain ⟨-, hread⟩ := readOn_scalar_eq_ok_iff.mp hread
    obtain ⟨_, moves, -⟩ := exists_moves_of_readFrom hread
    exact absurd (cases_of_moves_deliver moves) (by decide)
  | _ => cases hscan

end

theorem readFrom_number_quote_ne_ok (place : σ) (scan : NumberScan) (stack : List (Frame σ))
    (text : Text) (w : Value) :
    schema.readFrom (.number place scan stack) ('"' :: text) ≠ .ok w := by
  intro hread
  obtain ⟨_, moves, -⟩ := exists_moves_of_readFrom hread
  cases moves with
  | space between => cases between
  | number more =>
    obtain ⟨phase, reversed⟩ := scan
    cases phase <;> cases more
  | numberEnded _ moves => exact absurd (cases_of_moves_deliver moves) (by decide)

/-- Where the reading stands in the digits of an escape, the text ends in the escape. -/
theorem exists_escape_of_run {state next : State σ} (outside : state.scan? = none)
    {text seen : Text} (hrun : schema.run state text = .ok next)
    (hpending : next.pending? = some seen) :
    ∃ q behind, text = q ++ '\\' :: 'u' :: seen ∧ Utf8.width seen < 4
      ∧ schema.run state (q ++ ['\\', 'u']) = .ok behind ∧ behind.pending? = some [] := by
  obtain ⟨scan, hscan, hseen⟩ := exists_scan_of_pending hpending
  rcases List.eq_nil_or_concat text with hnil | ⟨before, c, hconcat⟩
  · rw [hnil] at hrun
    cases hrun
    rw [outside] at hscan
    cases hscan
  rw [List.concat_eq_append] at hconcat
  rw [hconcat] at hrun ⊢
  obtain ⟨last, hlast, moves⟩ := exists_of_run_concat hrun
  rcases moves.scan?_cases hscan with rfl | ⟨kept, earlier, hearlier, hmore⟩
  · cases hseen
  rcases QuotedScan.pending?_cases hmore hseen with
    ⟨digits, hdigits, rfl, hwidth⟩ | ⟨rfl, rfl, hescapes⟩
  · have hlastPending : last.pending? = some digits := by
      rw [State.pending?, hearlier]
      exact hdigits
    obtain ⟨q, behind, rfl, -, hbehind⟩ := exists_escape_of_run outside hlast hlastPending
    exact ⟨q, behind, by simp, hwidth, hbehind⟩
  · rcases List.eq_nil_or_concat before with hnil | ⟨q, backslash, hconcat'⟩
    · rw [hnil] at hlast
      cases hlast
      rw [outside] at hearlier
      cases hearlier
    rw [List.concat_eq_append] at hconcat'
    rw [hconcat'] at hlast hrun ⊢
    obtain ⟨_, _, moves⟩ := exists_of_run_concat hlast
    rcases moves.scan?_cases hearlier with rfl | ⟨_, _, -, hmore'⟩
    · rcases hescapes with hplace | ⟨_, hplace⟩ <;> cases hplace
    obtain rfl := QuotedScan.eq_backslash_of_escapes hmore' hescapes
    exact ⟨q, next, by simp, by decide, by simpa using hrun, hpending⟩
termination_by text.length
decreasing_by simp [hconcat]

end Schema

end FeatureLines.Json
