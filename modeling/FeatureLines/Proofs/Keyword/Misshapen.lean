import FeatureLines.Proofs.Keyword.OpenLanguage
import FeatureLines.Proofs.Keyword.Truncation

/-!
# Misshapen languages

That the members of a language are lists of strings is judged at its closing
brace. So of a language that is named well it is reported that the text ends or
stops being JSON within it, however its members are shaped, and their shape only
once the language is complete, whatever follows
(`Lexicon.parse_behind_languages`).

Two kinds of tokens are judged as a whole, which makes two exceptions. A number
is judged where it ends, and so it is where the text ends: if it is out of range
by then, the text is not JSON, though an exponent might have mended it
(`EndsOutOfRange`). And of an escape, or of an exponent without digits, nothing
is judged before it is complete, so a text that ends there is taken to be cut
off even if nothing could complete it (`EndsUnjudged`).
-/

namespace FeatureLines

open Json Schema

/-- The text ends in a number that is out of range. An empty string might stand in its place. -/
def EndsOutOfRange (p : Text) : Prop :=
  ∃ v s n, p = v ++ s ∧ BeginsObject (v ++ ['"', '"']) ∧ NumberSpelling n s ∧ n.inRange = false

/-- The text ends in an escape that has these digits so far. Another character might not stand
behind its `u`. -/
def EndsInEscape (p digits : Text) : Prop :=
  ∃ q, p = q ++ '\\' :: 'u' :: digits ∧ ¬ BeginsObject (q ++ ['\\', 'u', 'Z'])

/-- The text is gone on with by a character and a rest that end before their token is judged. -/
inductive EndsUnjudged : Text → Char → Text → Prop where
  /-- In the four bytes behind the `u` of an escape. -/
  | escape {p digits : Text} {c : Char} {rest : Text} (escape : EndsInEscape p digits)
      (short : Utf8.width (digits ++ c :: rest) < 4) : EndsUnjudged p c rest
  /-- Behind the sign of an exponent, which no digits can bring into range. -/
  | sign {p : Text} {mark : Char} (outOfRange : EndsOutOfRange p)
      (isMark : mark = 'e' ∨ mark = 'E') : EndsUnjudged (p ++ [mark]) '+' []

/-- So less than four bytes go unjudged. -/
theorem EndsUnjudged.width_lt {p rest : Text} {c : Char} (h : EndsUnjudged p c rest) :
    Utf8.width (c :: rest) < 4 := by
  cases h with
  | escape escape short =>
    simp only [Utf8.width, Utf8.encode, List.flatMap_append, List.length_append] at short ⊢
    omega
  | sign => decide

section

variable {earlier : List (Text × Value)} {code : Text}

/-! ## Numbers at the end of the text -/

/-- An empty string might stand where a value begins. -/
theorem beginsObject_quotes {v : Text} {place : LexiconPlace} {stack : List (Frame LexiconPlace)}
    {begun : State LexiconPlace} {fields : List (Text × Value)} {b : Text}
    (spells : Spelling true 1 (.object fields) (v ++ b)) (hv : v ≠ []) (hb : b ≠ [])
    (hrun : lexiconSchema.shapeless.run (beforeLanguage earlier code) v = .ok begun)
    (begins : lexiconSchema.shapeless.Begins place stack begun) :
    BeginsObject (v ++ ['"', '"']) := by
  obtain ⟨w, hclosers⟩ := lexiconSchema.shapeless_takesAll.readFrom_closers (.text []) stack
  have hread : lexiconSchema.shapeless.readFrom (beforeLanguage earlier code)
      (v ++ '"' :: '"' :: closers stack) = .ok w := by
    rw [readFrom_append_of_run hrun, readFrom_cons, begins.step_eq (by decide) (by decide)]
    exact hclosers
  obtain ⟨fields', rest, spells'⟩ := beginsObject_of_readFrom spells hv hb hread
  have hrest : rest ≠ [] := by
    rintro rfl
    have hlast := getLast?_of_objectSpelling spells'
    rw [List.append_nil, List.getLast?_concat] at hlast
    cases hlast
  have hsecond := beginsObject_of_readFrom (c := '"') spells' (by simp) hrest (by
    rw [List.append_assoc]
    exact hread)
  rwa [List.append_assoc] at hsecond

theorem Standing.endsOutOfRange_iff {p : Text} {state : State LexiconPlace}
    (h : Standing earlier code p state) (opens : OpensLanguage p) :
    EndsOutOfRange p ↔ ∃ place scan stack, state = .number place scan stack
      ∧ scan.phase.mayEnd = true ∧ scan.value.inRange = false := by
  obtain ⟨fields, b, named, hb, spells⟩ := opens
  constructor
  · rintro ⟨v, s, n, rfl, hquotes, spellsNumber, range⟩
    obtain ⟨c, s', first, rfl, hstart, hread⟩ :=
      NumberScan.read_of_spelling spellsNumber stopsNumber_nil
    rw [List.append_nil] at hread
    obtain ⟨begun, hbegun, hrun⟩ := exists_run_of_run_append h.run
    have hshapeless := (shapeless_loosens _).run_eq_ok (shapeless_takesAll _) hbegun
    -- what stands before
    obtain ⟨rest, w, hempty⟩ := exists_readFrom_of_beginsObject hquotes earlier code
    rw [List.append_assoc, readFrom_append_of_run hshapeless] at hempty
    obtain ⟨next, hstep, hnext⟩ := exists_step_of_run_cons hrun
    have moves := moves_of_step hstep
    have hleads := run_leadsTo (leadsTo_beforeLanguage earlier code) hbegun
    obtain ⟨hspace, hbracket, -, -, hquote, -⟩ := ne_of_start? hstart
    rcases moves.cases_of_start? hstart hleads with
      ⟨place, stack, begins⟩ | ⟨scan, hscan⟩ | ⟨place, scan, stack, rfl⟩
    · rw [begins.step_eq hspace hbracket, startValue_of_start? _ hstart] at hstep
      obtain rfl := Except.ok.inj hstep
      obtain ⟨later, hlater, hend, rfl⟩ := exists_run_of_read_stopped hread place stack
      rw [hlater] at hnext
      exact ⟨place, later, stack, (Except.ok.inj hnext).symm, hend, range⟩
    · obtain ⟨_, _, -, hmore⟩ := moves.exists_more_of_scan? hscan hquote
      exact absurd hempty
        (lexiconSchema_shapeless_region.readFrom_quotes_ne_ok hscan hmore hstart _ _)
    · exact absurd hempty (readFrom_number_quote_ne_ok _ _ _ _ _)
  · rintro ⟨place, scan, stack, rfl, hend, range⟩
    obtain ⟨⟨v, c, s, first, begun, rfl, hbegun, begins, hstart, hread⟩, -⟩ :=
      exists_begins_of_run (by exact nofun) h.run
    have hstopped : first.read s = .stopped scan.value [] := by
      rw [← List.append_nil s, hread, NumberScan.read, if_pos hend]
    obtain ⟨s, spellsNumber, rfl⟩ := NumberScan.exists_spelling_of_read hstart hstopped
    rw [List.append_nil]
    have hv : v ≠ [] := by
      rintro rfl
      obtain ⟨q, hq⟩ := exists_brace_of_objectSpelling spells (by simp)
      obtain ⟨rfl, -⟩ := List.cons.inj hq
      cases hstart
    rw [List.append_assoc] at spells
    have hshapeless := (shapeless_loosens _).run_eq_ok (shapeless_takesAll _) hbegun
    exact ⟨v, c :: s, scan.value, rfl, beginsObject_quotes spells hv (by simp) hshapeless
      ((shapeless_loosens _).begins begins), spellsNumber, range⟩

/-! ## Escapes at the end of the text -/

/-- The digits of such an escape are read as such. -/
theorem Standing.exists_of_endsInEscape {p digits : Text} {state : State LexiconPlace}
    (h : Standing earlier code p state) (opens : OpensLanguage p) (escape : EndsInEscape p digits) :
    ∃ q behind, p = q ++ digits ∧ lexiconSchema.run (beforeLanguage earlier code) q = .ok behind
      ∧ behind.pending? = some [] := by
  obtain ⟨q, rfl, hletter⟩ := escape
  obtain ⟨fields, b, named, hb, spells⟩ := opens
  obtain ⟨before, hbefore, hrun⟩ := exists_run_of_run_append h.run
  obtain ⟨between, hbetween, hrun⟩ := exists_step_of_run_cons hrun
  obtain ⟨behind, hbehind, hrun⟩ := exists_step_of_run_cons hrun
  have hq : lexiconSchema.run (beforeLanguage earlier code) (q ++ ['\\', 'u']) = .ok behind := by
    rw [run_append, hbefore]
    simp only [Schema.run, hbetween, hbehind]
  refine ⟨q ++ ['\\', 'u'], behind, by simp, hq, ?_⟩
  have hleads := run_leadsTo (leadsTo_beforeLanguage earlier code) hbefore
  obtain ⟨scan, hscan⟩ := (moves_of_step hbetween).exists_scan_of_backslash hleads
  obtain ⟨_, scan', hscan', hmore⟩ :=
    (moves_of_step hbetween).exists_more_of_scan? hscan (by decide)
  obtain ⟨_, scan'', hscan'', hmore'⟩ :=
    (moves_of_step hbehind).exists_more_of_scan? hscan' (by decide)
  rcases QuotedScan.cases_of_backslash_u hmore hmore' with ⟨seen, hseen⟩ | hnone | hplain
  · have hpending : before.pending? = some seen := by rw [State.pending?, hscan]; exact hseen
    obtain ⟨rest, w, hread⟩ := exists_readFrom_of_beginsObject ⟨fields, b, spells⟩ earlier code
    have hshapeless := (shapeless_loosens _).run_eq_ok (shapeless_takesAll _) hbefore
    rw [List.append_assoc, readFrom_append_of_run hshapeless] at hread
    exact absurd hread
      (lexiconSchema_shapeless_region.readFrom_ne_ok_of_pending hpending (by decide) _ w)
  · rw [State.pending?, hscan'']
    exact hnone
  · obtain ⟨text, w, hread⟩ := lexiconSchema.shapeless_takesAll.exists_readFrom_letter
      lexiconSchema_shapeless_region hscan'' hplain
    have hshapeless := (shapeless_loosens _).run_eq_ok (shapeless_takesAll _) hq
    rw [← readFrom_append_of_run hshapeless] at hread
    have spells' : Spelling true 1 (.object fields) ((q ++ ['\\', 'u']) ++ (digits ++ b)) := by
      simpa using spells
    have hbegins := beginsObject_of_readFrom spells' (by simp) (by simp [hb]) hread
    rw [List.append_assoc] at hbegins
    exact absurd hbegins hletter

/-! ## Faults -/

theorem readFrom_of_endsOutOfRange {p : Text} (opens : OpensLanguage p) (h : EndsOutOfRange p) :
    lexiconSchema.readFrom (beforeLanguage earlier code) p = .error .malformed := by
  obtain ⟨state, standing⟩ := exists_standing opens earlier code
  obtain ⟨place, scan, stack, rfl, hend, range⟩ := (standing.endsOutOfRange_iff opens).mp h
  rw [← List.append_nil p, readFrom_append_of_run standing.run, readFrom_nil, finish, if_pos hend,
    closeNumber, range]
  rfl

theorem readFrom_of_not_endsOutOfRange {p : Text} (opens : OpensLanguage p)
    (h : ¬ EndsOutOfRange p) :
    lexiconSchema.readFrom (beforeLanguage earlier code) p = .error .truncated := by
  obtain ⟨state, standing⟩ := exists_standing opens earlier code
  rw [← List.append_nil p, readFrom_append_of_run standing.run, readFrom_nil]
  rcases lexiconSchema.finish_eq_truncated_or state with
    htruncated | ⟨value, hdone⟩ | ⟨place, scan, stack, rfl⟩
  · exact htruncated
  · exact absurd hdone (standing.notDone value)
  · obtain rfl := standing.number _ _ _ rfl
    rw [finish]
    by_cases hend : scan.phase.mayEnd = true
    · have range : scan.value.inRange = true := by
        cases hrange : scan.value.inRange with
        | true => rfl
        | false =>
          exact absurd
            ((standing.endsOutOfRange_iff opens).mpr ⟨_, scan, stack, rfl, hend, hrange⟩) h
      have hclose : lexiconSchema.closeNumber .content scan.value stack =
          .ok (deliver (.number scan.value) stack) := by
        rw [closeNumber, range]
        rfl
      rw [if_pos hend, hclose]
      cases standing.leadsTo with
      | item => rfl
      | member => rfl
    · rw [if_neg hend]
      rfl

theorem OpensLanguage.of_append {p s : Text} (h : OpensLanguage (p ++ s)) : OpensLanguage p := by
  obtain ⟨fields, rest, named, hne, spells⟩ := h
  exact ⟨fields, s ++ rest, named, by simp [hne], by rwa [List.append_assoc] at spells⟩

theorem readFrom_of_endsUnjudged {p : Text} (opens : OpensLanguage p) {c : Char} {rest : Text}
    (h : EndsUnjudged p c rest) :
    lexiconSchema.readFrom (beforeLanguage earlier code) (p ++ c :: rest) = .error .truncated := by
  obtain ⟨state, standing⟩ := exists_standing opens earlier code
  cases h with
  | escape escape short =>
    obtain ⟨q, behind, rfl, hq, hpending⟩ := standing.exists_of_endsInEscape opens escape
    rw [List.append_assoc, readFrom_append_of_run hq]
    exact lexiconSchema_region.readFrom_of_pending hpending short
  | @sign p mark outOfRange isMark =>
    obtain ⟨before, hbefore⟩ := exists_standing opens.of_append earlier code
    obtain ⟨place, scan, stack, rfl, hend, -⟩ :=
      (hbefore.endsOutOfRange_iff opens.of_append).mp outOfRange
    obtain ⟨last, hlast, moves⟩ := exists_of_run_concat standing.run
    obtain rfl := Except.ok.inj (hlast.symm.trans hbefore.run)
    rw [readFrom_append_of_run standing.run, moves.eq_of_mark isMark hend]
    rfl

/-- Where the text cannot be gone on with, the digits of an escape are those of one at the end of
what stands before. -/
theorem Standing.endsUnjudged_of_pending {p rest : Text} {c : Char}
    {state last : State LexiconPlace} (h : Standing earlier code p state)
    (dead : ∀ text w, lexiconSchema.shapeless.readFrom state (c :: text) ≠ .ok w)
    (hrun : lexiconSchema.run (beforeLanguage earlier code) (p ++ c :: rest) = .ok last)
    {seen : Text} (hpending : last.pending? = some seen) : EndsUnjudged p c rest := by
  obtain ⟨q, behind, hsplit, short, hq, hnone⟩ := exists_escape_of_run rfl hrun hpending
  have hshapeless := (shapeless_loosens _).run_eq_ok (shapeless_takesAll _) hq
  have hletter : ¬ BeginsObject (q ++ ['\\', 'u', 'Z']) := by
    intro hbegins
    obtain ⟨text, w, hread⟩ := exists_readFrom_of_beginsObject hbegins earlier code
    have hassoc : q ++ ['\\', 'u', 'Z'] ++ text = (q ++ ['\\', 'u']) ++ 'Z' :: text := by simp
    rw [hassoc, readFrom_append_of_run hshapeless] at hread
    exact lexiconSchema_shapeless_region.readFrom_ne_ok_of_pending hnone (by decide) text w hread
  have hsplit' : p ++ c :: rest = (q ++ ['\\', 'u']) ++ seen := by simpa using hsplit
  rcases List.append_eq_append_iff.mp hsplit' with ⟨z, hz, hrest⟩ | ⟨digits, rfl, rfl⟩
  · cases z with
    | nil =>
      rw [List.append_nil] at hz
      rw [List.nil_append] at hrest
      have escape : EndsInEscape p [] := ⟨q, hz.symm, hletter⟩
      exact .escape escape (by rwa [List.nil_append, hrest])
    | cons d z =>
      -- The escape begins behind the character, where the text could be gone on with.
      obtain ⟨rfl, -⟩ := List.cons.inj hrest
      obtain ⟨scan, hscan, hplace⟩ := exists_scan_of_pending hnone
      obtain ⟨text, w, hread⟩ := lexiconSchema.shapeless_takesAll.completes_of_scan?
        lexiconSchema_shapeless_region hscan fun seen hseen =>
          (Option.some.inj (hplace.symm.trans hseen)).symm
      rw [← readFrom_append_of_run hshapeless, hz, List.append_assoc,
        readFrom_append_of_run h.shapelessRun] at hread
      exact absurd hread (dead _ w)
  · exact .escape ⟨q, by simp, hletter⟩ short

/-- Where the text cannot be gone on with, a sign without digits is the last character, and the
number before it is out of range. -/
theorem Standing.endsUnjudged_of_markSign {p rest : Text} {c : Char}
    {state : State LexiconPlace} (h : Standing earlier code p state) (opens : OpensLanguage p)
    (hp : p ≠ [])
    (dead : ∀ text w, lexiconSchema.shapeless.readFrom state (c :: text) ≠ .ok w)
    {place : LexiconPlace} {scan : NumberScan} {stack : List (Frame LexiconPlace)}
    (hrun : lexiconSchema.run (beforeLanguage earlier code) (p ++ c :: rest) =
      .ok (.number place scan stack))
    (never : ¬ lexiconSchema.shapeless.Completes (.number place scan stack))
    (hphase : scan.phase = .markSign) (hmends : ¬ scan.Mends) : EndsUnjudged p c rest := by
  obtain ⟨phase, reversed⟩ := scan
  obtain rfl : phase = .markSign := hphase
  obtain ⟨before, sign, hconcat⟩ : ∃ before sign, c :: rest = before ++ [sign] := by
    simpa using List.eq_nil_or_concat (c :: rest)
  rw [hconcat, ← List.append_assoc] at hrun
  obtain ⟨atMark, hatMark, moves⟩ := exists_of_run_concat hrun
  rcases moves.number_cases rfl with ⟨hstart, -⟩ | ⟨marked, rfl, hmore⟩
  · exact absurd rfl (NumberScan.phase_of_start? hstart).2
  obtain ⟨rfl, rfl⟩ := NumberScan.eq_of_step_markSign hmore hmends
  cases before with
  | cons d before =>
    -- Behind the mark the text could be gone on with.
    obtain ⟨rfl, -⟩ := List.cons.inj hconcat
    have mends : NumberScan.Mends ⟨.mark, reversed⟩ := by rintro (h | h) <;> cases h
    obtain ⟨text, w, hread⟩ := lexiconSchema.shapeless_takesAll.completes_number place mends stack
    have hshapeless := (shapeless_loosens _).run_eq_ok (shapeless_takesAll _) hatMark
    rw [← readFrom_append_of_run hshapeless, List.append_assoc,
      readFrom_append_of_run h.shapelessRun] at hread
    exact absurd hread (dead _ w)
  | nil =>
    obtain ⟨rfl, rfl⟩ := List.cons.inj hconcat
    rw [List.append_nil] at hatMark
    obtain ⟨q, mark, rfl⟩ : ∃ q mark, p = q ++ [mark] := by
      simpa [hp] using List.eq_nil_or_concat p
    obtain ⟨unmarked, hunmarked, moves⟩ := exists_of_run_concat hatMark
    rcases moves.number_cases rfl with ⟨hstart, -⟩ | ⟨number, rfl, hmore⟩
    · exact absurd rfl (NumberScan.phase_of_start? hstart).1
    obtain ⟨isMark, hend, hexponent, hreversed⟩ := NumberScan.eq_of_step_mark hmore
    obtain ⟨standing, hstanding⟩ := exists_standing opens.of_append earlier code
    obtain rfl := Except.ok.inj (hstanding.run.symm.trans hunmarked)
    obtain rfl : reversed = number.reversed := hreversed
    have range : number.value.inRange = false := by
      cases hrange : number.value.inRange with
      | false => rfl
      | true =>
        have none := (exists_begins_of_run (by exact nofun) hunmarked).2 hexponent
        exact absurd (lexiconSchema.shapeless_takesAll.completes_markSign place none hrange stack)
          never
    exact .sign ((hstanding.endsOutOfRange_iff opens.of_append).mpr
      ⟨place, number, stack, rfl, hend, range⟩) isMark

/-- A text that cannot be gone on with is found not to be JSON, unless it ends before. -/
theorem readFrom_of_not_beginsObject {p : Text} (opens : OpensLanguage p) (hp : p ≠ []) {c : Char}
    (hc : ¬ BeginsObject (p ++ [c])) {rest : Text} (h : ¬ EndsUnjudged p c rest) :
    lexiconSchema.readFrom (beforeLanguage earlier code) (p ++ c :: rest) = .error .malformed := by
  obtain ⟨state, standing⟩ := exists_standing opens earlier code
  have dead (text : Text) (w : Value) :
      lexiconSchema.shapeless.readFrom state (c :: text) ≠ .ok w := by
    intro hread
    obtain ⟨fields, b, -, hb, spells⟩ := opens
    rw [← readFrom_append_of_run standing.shapelessRun] at hread
    exact hc (beginsObject_of_readFrom spells hp hb hread)
  have loosens := lexiconSchema.shapeless_loosens
  have all := lexiconSchema.shapeless_takesAll
  rw [readFrom_append_of_run standing.run, readFrom_cons]
  rcases step_of_not_completes loosens all standing.hidesNothing dead with
    hstep | ⟨next, hstep, hnext⟩
  · rw [hstep, readOn_error]
  · have hhides := hidesNothing_of_step all lexiconSchema_shapeless_region standing.hidesNothing
      hnext hstep
    rw [hstep, readOn_ok]
    rcases readFrom_of_not_completes loosens all lexiconSchema_shapeless_region hnext hhides rest
      with hmalformed | ⟨-, last, hlast, hnever, hend⟩
    · exact hmalformed
    · have hrun : lexiconSchema.run (beforeLanguage earlier code) (p ++ c :: rest) = .ok last := by
        rw [run_append, standing.run]
        simp only [run, hstep, hlast]
      rcases hend with ⟨seen, hseen, -⟩ | ⟨place, scan, stack, rfl, hphase, hmends⟩
      · exact absurd (standing.endsUnjudged_of_pending dead hrun hseen) h
      · exact absurd (standing.endsUnjudged_of_markSign opens hp dead hrun hnever hphase hmends) h

/-- At its closing brace a language is refused for the shape of a member, whatever follows. -/
theorem readFrom_of_misshapen {fields : List (Text × Value)} {text : Text}
    (spells : Spelling true 1 (.object fields) text) (named : WellNamed fields)
    (misshapen : Misshapen fields) (rest : Text) :
    lexiconSchema.readFrom (beforeLanguage earlier code) (text ++ rest) = .error .misshapen := by
  obtain ⟨body, rfl, -, hread⟩ := exists_of_languageSpelling spells named earlier code
  have hclose : lexiconSchema.mayClose .language fields = false :=
    haveKeywordLists_of_misshapen misshapen
  rw [List.append_assoc, List.singleton_append, hread, closeObject, List.reverse_reverse, hclose]
  rfl

end

/-! ## A number and an escape at the end -/

theorem lexiconLead_xx : LexiconLead "\x7b\"xx\":".toList := by
  have spaces : Spaces [] := by simp [Spaces]
  exact .first spaces
    (.mk spaces (stringSpelling_flatMap_escapeChar true "xx".toList) spaces spaces)

/-- A language whose only member is no name. -/
def givenOnly (value : Value) : List (Text × Value) := [("given".toList, value)]

theorem isNameKey_of_mem_givenOnly {value : Value} :
    ∀ field ∈ givenOnly value, isNameKey field.1 = false := by
  intro field hfield
  obtain rfl := List.mem_singleton.mp hfield
  exact (by decide : isNameKey "given".toList = false)

theorem wellNamed_givenOnly (value : Value) : WellNamed (givenOnly value) where
  once key _ := by simp [givenOnly, List.count_singleton]; split <;> simp
  label field hfield hname := by
    rw [isNameKey_of_mem_givenOnly field hfield] at hname
    cases hname

theorem misshapen_givenOnly {value : Value}
    (h : ∀ words : List Text, value ≠ .array (words.map .text)) : Misshapen (givenOnly value) :=
  ⟨_, List.mem_singleton.mpr rfl, isNameKey_of_mem_givenOnly _ (List.mem_singleton.mpr rfl), h⟩

theorem spelling_givenOnly {value : Value} {s : Text} (spells : Spelling true 2 value s) :
    Spelling true 1 (.object (givenOnly value)) ("\x7b\"given\":".toList ++ (s ++ ['\x7d'])) := by
  have spaces : Spaces [] := by simp [Spaces]
  have hkey : StringSpelling true "given".toList "given".toList :=
    stringSpelling_flatMap_escapeChar true "given".toList
  have hmember := MemberSpelling.mk spaces hkey spaces spaces spells spaces
  simpa [givenOnly] using Spelling.object 1 (fun _ => by decide) (.last hmember)

theorem opensMisshapen_givenOnly {value : Value} {p rest : Text}
    (hvalue : ∀ words : List Text, value ≠ .array (words.map .text))
    (spells : Spelling true 2 value (p ++ rest)) :
    OpensMisshapen ("\x7b\"given\":".toList ++ p) :=
  ⟨givenOnly value, rest ++ ['\x7d'], wellNamed_givenOnly value, misshapen_givenOnly hvalue,
    by simp, by simpa using spelling_givenOnly spells⟩

/-- One followed by four hundred zeros. -/
def farOut : Number := ⟨false, 1 :: List.replicate 400 0, [], false, []⟩

theorem isWhole_farOut : IsWhole farOut.whole := by
  refine .inr ⟨rfl, fun d hd => ?_⟩
  rcases List.mem_cons.mp hd with rfl | hd
  · decide
  · rw [List.eq_of_mem_replicate hd]
    decide

theorem digitsText_farOut : digitsText farOut.whole = '1' :: List.replicate 400 '0' := by
  show digitChar 1 :: (List.replicate 400 0).map digitChar = _
  rw [List.map_replicate]
  rfl

/-- The number is out of range, but an exponent could bring it back. -/
theorem opensMisshapen_farOut :
    OpensMisshapen ("\x7b\"given\":".toList ++ '1' :: List.replicate 400 '0') := by
  let n : Number := { farOut with exponentNegative := true, exponent := [4, 0, 0] }
  have spells : NumberSpelling n ('1' :: List.replicate 400 '0' ++ "e-400".toList) := by
    have h := NumberSpelling.mk n [] "e-400".toList isWhole_farOut .none
      (.minus 'e' [4, 0, 0] (.inl rfl) (by simp) (by decide))
    have hdigits : digitsText n.whole = '1' :: List.replicate 400 '0' := digitsText_farOut
    rwa [hdigits, List.append_nil] at h
  have range : n.inRange = true := by decide +kernel
  have hvalue (words : List Text) : Value.number n ≠ .array (words.map .text) := nofun
  exact opensMisshapen_givenOnly hvalue (.number 2 n spells fun _ => range)

theorem endsOutOfRange_farOut :
    EndsOutOfRange ("\x7b\"given\":".toList ++ '1' :: List.replicate 400 '0') := by
  have spells := NumberSpelling.mk farOut [] [] isWhole_farOut .none .none
  rw [digitsText_farOut, List.append_nil, List.append_nil] at spells
  refine ⟨_, _, farOut, rfl, ?_, spells, by decide +kernel⟩
  exact ⟨givenOnly (.text []), ['\x7d'], spelling_givenOnly (.text 2 .nil)⟩

/-- Four digits would make the escape a letter. -/
theorem opensMisshapen_escape : OpensMisshapen "\x7b\"given\":\"\\u".toList := by
  have spells : StringSpelling true ['A'] ("\\u".toList ++ "0041".toList) :=
    .unit "0041".toList 0x41 (by decide) (by decide) (by decide) .nil
  have hquoted : Spelling true 2 (.text ['A']) ("\"\\u".toList ++ "0041\"".toList) :=
    .text 2 spells
  have hvalue (words : List Text) : Value.text ['A'] ≠ .array (words.map .text) := nofun
  exact opensMisshapen_givenOnly hvalue hquoted

theorem not_beginsObject_escape : ¬ BeginsObject ("\x7b\"given\":\"\\u".toList ++ ['Z']) := by
  intro hbegins
  obtain ⟨text, w, hread⟩ := exists_readFrom_of_beginsObject hbegins [] []
  obtain ⟨state, hrun, hpending⟩ : ∃ state, lexiconSchema.shapeless.run (beforeLanguage [] [])
      "\x7b\"given\":\"\\u".toList = .ok state ∧ state.pending? = some [] := ⟨_, rfl, rfl⟩
  rw [List.append_assoc, readFrom_append_of_run hrun] at hread
  exact lexiconSchema_shapeless_region.readFrom_ne_ok_of_pending hpending (by decide) text w hread

theorem not_endsOutOfRange_escape : ¬ EndsOutOfRange "\x7b\"given\":\"\\u".toList := by
  intro h
  have opens := opensMisshapen_escape.opensLanguage
  obtain ⟨state, standing⟩ := exists_standing opens [] []
  obtain ⟨place, scan, stack, rfl, -⟩ := (standing.endsOutOfRange_iff opens).mp h
  have hrun := standing.run
  cases hrun

theorem endsUnjudged_escape : EndsUnjudged "\x7b\"given\":\"\\u".toList 'Z' [] :=
  .escape ⟨"\x7b\"given\":\"".toList, rfl, not_beginsObject_escape⟩ (by decide)

/-! ## What is reported -/

theorem LexiconLead.parse_eq_error {lead text : Text} (h : LexiconLead lead) {fault : Json.Fault}
    (hread : ∀ earlier code,
      lexiconSchema.readFrom (beforeLanguage earlier code) text = .error fault)
    (resource : Text) :
    Lexicon.parse resource (Utf8.encode (lead ++ text)) = .error (.unparsable resource fault) := by
  obtain ⟨earlier, code, hlead⟩ := h.exists_readFrom
  refine Lexicon.parse_encode_of_error ?_ resource
  rw [Lexicon.ofText, hlead, hread]

namespace Lexicon

/-- Behind complete languages a language begins that is named well. If a member of it is not a list
of strings, this is reported once it is complete, whatever follows. Before that a text that ends is
reported as truncated and one that stops being JSON as malformed, however the members are shaped,
with two exceptions: a number that is out of range where the text ends is malformed, and a text
that ends before its last token is judged is truncated. -/
theorem parse_behind_languages {lead : Text} (h : LexiconLead lead) (resource : Text) :
    (∀ fields text rest, WellNamed fields → Misshapen fields →
        Spelling true 1 (.object fields) text →
        parse resource (Utf8.encode (lead ++ (text ++ rest))) =
          .error (.unparsable resource .misshapen))
      ∧ (∀ p, OpensLanguage p →
        (EndsOutOfRange p → parse resource (Utf8.encode (lead ++ p)) =
            .error (.unparsable resource .malformed))
          ∧ (¬ EndsOutOfRange p → parse resource (Utf8.encode (lead ++ p)) =
            .error (.unparsable resource .truncated)))
      ∧ ∀ p c rest, OpensLanguage p → p ≠ [] → ¬ BeginsObject (p ++ [c]) →
        (EndsUnjudged p c rest → parse resource (Utf8.encode (lead ++ (p ++ c :: rest))) =
            .error (.unparsable resource .truncated))
          ∧ (¬ EndsUnjudged p c rest → parse resource (Utf8.encode (lead ++ (p ++ c :: rest))) =
            .error (.unparsable resource .malformed)) := by
  refine ⟨?_, ?_, ?_⟩
  · intro fields text rest named misshapen spells
    exact h.parse_eq_error (fun _ _ => readFrom_of_misshapen spells named misshapen rest) resource
  · intro p opens
    constructor
    · intro ends
      exact h.parse_eq_error (fun _ _ => readFrom_of_endsOutOfRange opens ends) resource
    · intro ends
      exact h.parse_eq_error (fun _ _ => readFrom_of_not_endsOutOfRange opens ends) resource
  · intro p c rest opens hp hc
    constructor
    · intro ends
      exact h.parse_eq_error (fun _ _ => readFrom_of_endsUnjudged opens ends) resource
    · intro ends
      exact h.parse_eq_error (fun _ _ => readFrom_of_not_beginsObject opens hp hc ends) resource

/-- All that is said holds of texts with one member. -/
theorem parse_behind_languages_givenOnly :
    let resource := "words.json".toList
    let lead := "\x7b\"xx\":".toList
    let number := "\x7b\"given\":".toList ++ '1' :: List.replicate 400 '0'
    let escape := "\x7b\"given\":\"\\u".toList
    LexiconLead lead
      ∧ parse resource (Utf8.encode (lead ++ ("\x7b\"given\":\"\"\x7d".toList ++ "]".toList))) =
        .error (.unparsable resource .misshapen)
      ∧ (OpensLanguage number ∧ EndsOutOfRange number
        ∧ parse resource (Utf8.encode (lead ++ number)) = .error (.unparsable resource .malformed))
      ∧ (OpensLanguage escape ∧ ¬ EndsOutOfRange escape
        ∧ parse resource (Utf8.encode (lead ++ escape)) = .error (.unparsable resource .truncated))
      ∧ (¬ BeginsObject (escape ++ ['Z']) ∧ EndsUnjudged escape 'Z' []
        ∧ parse resource (Utf8.encode (lead ++ (escape ++ ['Z']))) =
          .error (.unparsable resource .truncated))
      ∧ ¬ EndsUnjudged escape 'Z' "  \"".toList
        ∧ parse resource (Utf8.encode (lead ++ (escape ++ 'Z' :: "  \"".toList))) =
          .error (.unparsable resource .malformed) := by
  intro resource lead number escape
  obtain ⟨hcomplete, hcut, hwrong⟩ := parse_behind_languages lexiconLead_xx resource
  have opens := opensMisshapen_farOut.opensLanguage
  have opens' := opensMisshapen_escape.opensLanguage
  have hquotes : Spelling true 2 (.text []) "\"\"".toList := .text 2 .nil
  have hvalue (words : List Text) : Value.text [] ≠ .array (words.map .text) := nofun
  have hrange : ¬ EndsOutOfRange escape := not_endsOutOfRange_escape
  have hjudged : ¬ EndsUnjudged escape 'Z' "  \"".toList := fun h => absurd h.width_lt (by decide)
  refine ⟨lexiconLead_xx, ?_, ?_, ?_, ?_, ?_⟩
  · exact hcomplete _ _ "]".toList (wellNamed_givenOnly _) (misshapen_givenOnly hvalue)
      (spelling_givenOnly hquotes)
  · exact ⟨opens, endsOutOfRange_farOut, (hcut _ opens).1 endsOutOfRange_farOut⟩
  · exact ⟨opens', hrange, (hcut _ opens').2 hrange⟩
  · exact ⟨not_beginsObject_escape, endsUnjudged_escape,
      (hwrong _ _ _ opens' (by decide) not_beginsObject_escape).1 endsUnjudged_escape⟩
  · exact ⟨hjudged, (hwrong _ _ _ opens' (by decide) not_beginsObject_escape).2 hjudged⟩

/-- So it is not so that a text that ends within a misshapen language is always reported as
truncated, and one that stops being JSON within it always as malformed. -/
theorem parse_openMisshapen_exceptions :
    let resource := "words.json".toList
    let lead := "\x7b\"xx\":".toList
    let number := "\x7b\"given\":".toList ++ '1' :: List.replicate 400 '0'
    let escape := "\x7b\"given\":\"\\u".toList
    LexiconLead lead
      ∧ (OpensMisshapen number ∧ parse resource (Utf8.encode (lead ++ number)) ≠
        .error (.unparsable resource .truncated))
      ∧ (OpensMisshapen escape ∧ ¬ BeginsObject (escape ++ ['Z'])
        ∧ parse resource (Utf8.encode (lead ++ (escape ++ ['Z']))) ≠
          .error (.unparsable resource .malformed)) := by
  intro resource lead number escape
  refine ⟨lexiconLead_xx, ⟨opensMisshapen_farOut, ?_⟩, opensMisshapen_escape,
    not_beginsObject_escape, ?_⟩
  · rw [lexiconLead_xx.parse_eq_error fun _ _ => readFrom_of_endsOutOfRange
      opensMisshapen_farOut.opensLanguage endsOutOfRange_farOut]
    exact nofun
  · rw [lexiconLead_xx.parse_eq_error fun _ _ => readFrom_of_endsUnjudged
      opensMisshapen_escape.opensLanguage endsUnjudged_escape]
    exact nofun

end Lexicon

end FeatureLines
