import FeatureLines.Catalog.SharedBuild

/-!
# However many ask, one build at a time

Callers that ask a catalog at once are interleaved in any way. `Orderly` says
which histories come of it: each attempt is ended, by the caller that started it,
before another one is started, and behind a publication there is nothing.

`Sound` is the invariant. Its one delicate part is the caller that saw no tables
before it had the lock: what it saw may be out of date, so nothing can be known of
it (`Knows` is `True` there) until it has looked again inside. By then no other
caller can be at an attempt, since whoever is holds the lock
(`Sound.eq_idle_of_locked`). This is the second look, and the only place where the
lock and the history meet.

Most steps leave the history alone (`Sound.quietly`). The three that write to it
are taken inside the lock, while all other callers are outside (`Sound.noting`).
`Sound.step` goes through the steps, and `Sound.run` through a schedule.
-/

namespace FeatureLines

/-! ## Where a caller stands -/

/-- The number of the attempt that a caller is at. -/
def Phase.attempt? : Phase → Option Nat
  | .loading attempt | .building attempt _ => some attempt
  | .publishing publication => some publication.attempt
  | _ => none

/-- The caller has started an attempt that has not ended. -/
def Phase.isAttempt (phase : Phase) : Bool := phase.attempt?.isSome

/-- The caller holds the lock. -/
def Phase.isLocked : Phase → Bool
  | .arriving | .waiting | .finished _ => false
  | _ => true

theorem Phase.isLocked_of_attempt? {phase : Phase} {attempt : Nat}
    (h : phase.attempt? = some attempt) : phase.isLocked = true := by
  cases phase <;> first | rfl | cases h

def BuildEvent.isStart : BuildEvent → Bool
  | .started _ _ => true
  | _ => false

def BuildEvent.isFailure : BuildEvent → Bool
  | .failed _ _ => true
  | _ => false

def BuildEvent.isPublication : BuildEvent → Bool
  | .published _ _ => true
  | _ => false

/-- The tables of an attempt carry its number. -/
theorem attempt_of_ofLoad {attempt : Nat} {loaded : Except LexiconError Lexicon}
    {publication : Publication} (h : Publication.ofLoad attempt loaded = .ok publication) :
    publication.attempt = attempt := by
  unfold Publication.ofLoad at h
  split at h
  · cases h
  · split at h
    · cases h
    · obtain rfl := Except.ok.inj h
      rfl

/-! ## Orderly histories -/

/-- How the attempts at building stand. -/
inductive BuildState where
  /-- Nothing is published and nobody is at an attempt. -/
  | idle
  /-- The caller is at this attempt. -/
  | trying (caller attempt : Nat)
  /-- An attempt has succeeded. -/
  | done (publication : Publication)

def BuildState.published? : BuildState → Option Publication
  | .done publication => some publication
  | _ => none

/-- Whether somebody is at an attempt. -/
def BuildState.isTrying : BuildState → Bool
  | .trying _ _ => true
  | _ => false

/-- The history of attempts made one after the other, the first of them with number `first`, with
the number of the next one and how they stand. -/
inductive Orderly (outcome : Nat → Except LexiconError Lexicon) (first : Nat) :
    List BuildEvent → Nat → BuildState → Prop where
  | nil : Orderly outcome first [] first .idle
  | started {history : List BuildEvent} {loads : Nat} (caller : Nat)
      (before : Orderly outcome first history loads .idle) :
      Orderly outcome first (.started caller loads :: history) (loads + 1) (.trying caller loads)
  | failed {history : List BuildEvent} {loads caller attempt : Nat} {error : LexiconError}
      (before : Orderly outcome first history loads (.trying caller attempt))
      (outcome_eq : Publication.ofLoad attempt (outcome attempt) = .error error) :
      Orderly outcome first (.failed caller attempt :: history) loads .idle
  | published {history : List BuildEvent} {loads caller attempt : Nat} {publication : Publication}
      (before : Orderly outcome first history loads (.trying caller attempt))
      (outcome_eq : Publication.ofLoad attempt (outcome attempt) = .ok publication) :
      Orderly outcome first (.published caller attempt :: history) loads (.done publication)

section

variable {outcome : Nat → Except LexiconError Lexicon} {first loads : Nat}
  {history : List BuildEvent} {state : BuildState}

/-- Starts are balanced by ends, up to one that is open; and there is one publication at most. -/
theorem Orderly.account (h : Orderly outcome first history loads state) :
    loads = first + history.countP BuildEvent.isStart
      ∧ history.countP BuildEvent.isPublication = state.published?.isSome.toNat
      ∧ history.countP BuildEvent.isStart = history.countP BuildEvent.isFailure +
        history.countP BuildEvent.isPublication + state.isTrying.toNat := by
  induction h with
  | nil => exact ⟨rfl, rfl, rfl⟩
  | started _ _ ih | failed _ _ ih | published _ _ ih =>
    obtain ⟨hloads, hpublications, hstarts⟩ := ih
    simp only [List.countP_cons, BuildEvent.isStart, BuildEvent.isFailure,
      BuildEvent.isPublication, BuildState.published?, BuildState.isTrying, Option.isSome_none,
      Option.isSome_some, Bool.toNat_true, Bool.toNat_false, Bool.false_eq_true, if_true,
      if_false] at hpublications hstarts ⊢
    omega

theorem Orderly.exists_of_append {later earlier : List BuildEvent}
    (h : Orderly outcome first (later ++ earlier) loads state) :
    ∃ loads state, Orderly outcome first earlier loads state := by
  induction later generalizing loads state with
  | nil => exact ⟨loads, state, h⟩
  | cons event later ih =>
    cases h with
    | started _ before | failed before _ | published before _ => exact ih before

/-- What comes after the start of an attempt is its end. -/
theorem Orderly.ended_of_started {later earlier : List BuildEvent} {caller attempt : Nat}
    (h : Orderly outcome first (later ++ .started caller attempt :: earlier) loads state) :
    later = [] ∨ ∃ rest, later = rest ++ [.failed caller attempt]
      ∨ later = rest ++ [.published caller attempt] := by
  rcases List.eq_nil_or_concat later with rfl | ⟨rest, event, rfl⟩
  · exact Or.inl rfl
  · rw [List.concat_eq_append, List.append_assoc] at h
    rw [List.concat_eq_append]
    obtain ⟨_, _, hnext⟩ := h.exists_of_append
    refine Or.inr ⟨rest, ?_⟩
    cases hnext with
    | started _ before => cases before
    | failed before _ =>
      cases before
      exact Or.inl rfl
    | published before _ =>
      cases before
      exact Or.inr rfl

/-- Only an attempt of one's own can fail. -/
theorem Orderly.mem_started_of_failed (h : Orderly outcome first history loads state)
    {caller attempt : Nat} (hmem : .failed caller attempt ∈ history) :
    .started caller attempt ∈ history := by
  induction h with
  | nil => cases hmem
  | failed before _ ih =>
    refine List.mem_cons_of_mem _ ?_
    rcases List.mem_cons.mp hmem with hsame | hmem
    · cases hsame
      cases before
      exact List.mem_cons_self
    · exact ih hmem
  | started _ _ ih | published _ _ ih =>
    refine List.mem_cons_of_mem _ (ih ?_)
    rcases List.mem_cons.mp hmem with hsame | hmem
    · cases hsame
    · exact hmem

theorem Orderly.mem_published {publication : Publication}
    (h : Orderly outcome first history loads (.done publication)) :
    Publication.ofLoad publication.attempt (outcome publication.attempt) = .ok publication
      ∧ ∃ caller, .published caller publication.attempt ∈ history := by
  cases h with
  | @published _ _ caller attempt _ before outcome_eq =>
    obtain rfl := attempt_of_ofLoad outcome_eq
    exact ⟨outcome_eq, caller, List.mem_cons_self⟩

end

/-! ## The invariant -/

/-- An answer is the published tables, or the error of an attempt of the caller's own. -/
def Justified (outcome : Nat → Except LexiconError Lexicon) (history : List BuildEvent)
    (published : Option Publication) (caller : Nat) : Except LexiconError Publication → Prop
  | .ok publication => published = some publication
  | .error error => ∃ attempt, .failed caller attempt ∈ history
      ∧ Publication.ofLoad attempt (outcome attempt) = .error error

/-- What a caller in a phase can rely on. In front of its look inside the lock this is nothing. -/
def Phase.Knows (outcome : Nat → Except LexiconError Lexicon) (history : List BuildEvent)
    (state : BuildState) (caller : Nat) : Phase → Prop
  | .arriving | .waiting | .entered => True
  | .cleared => state = .idle
  | .loading attempt => state = .trying caller attempt
  | .building attempt loaded => state = .trying caller attempt ∧ loaded = outcome attempt
  | .publishing publication => state = .trying caller publication.attempt
      ∧ Publication.ofLoad publication.attempt (outcome publication.attempt) = .ok publication
  | .leaving answer | .finished answer => Justified outcome history state.published? caller answer

/-- Outside the lock nothing is known that a caller inside could undo. -/
theorem Phase.Knows.note {outcome : Nat → Except LexiconError Lexicon}
    {history : List BuildEvent} {state : BuildState} {caller : Nat} {phase : Phase}
    (h : phase.Knows outcome history state caller) (unlocked : phase.isLocked = false)
    (unpublished : state.published? = none) (event : BuildEvent) (next : BuildState) :
    phase.Knows outcome (event :: history) next caller := by
  cases phase with
  | arriving | waiting => trivial
  | finished answer =>
    cases answer with
    | ok publication =>
      have hpublished : state.published? = some publication := h
      rw [unpublished] at hpublished
      cases hpublished
    | error error =>
      obtain ⟨attempt, hmem, hfailed⟩ := h
      exact ⟨attempt, List.mem_cons_of_mem _ hmem, hfailed⟩
  | _ => cases unlocked

namespace Meeting

/-- What holds of a meeting at every point of every schedule. -/
structure Sound (outcome : Nat → Except LexiconError Lexicon) (first : Nat) (state : BuildState)
    (meeting : Meeting) : Prop where
  orderly : Orderly outcome first meeting.history meeting.loads state
  published : meeting.published = state.published?
  knows : ∀ caller (phase : Phase), meeting.phases[caller]? = some phase →
    phase.Knows outcome meeting.history state caller
  holder : ∀ caller (phase : Phase), meeting.phases[caller]? = some phase →
    phase.isLocked = true → meeting.holder = some caller
  trying : ∀ caller attempt, state = .trying caller attempt →
    ∃ phase : Phase, meeting.phases[caller]? = some phase ∧ phase.attempt? = some attempt

section

variable {outcome : Nat → Except LexiconError Lexicon} {first caller : Nat} {state : BuildState}
  {meeting : Meeting} {phase : Phase}

theorem sound_gather (callers loads : Nat) :
    (gather callers loads none).Sound outcome loads .idle where
  orderly := .nil
  published := rfl
  knows caller phase h := by
    obtain rfl := List.eq_of_mem_replicate (List.mem_of_getElem? h)
    trivial
  holder caller phase h hlocked := by
    obtain rfl := List.eq_of_mem_replicate (List.mem_of_getElem? h)
    cases hlocked
  trying caller attempt h := nomatch h

theorem Sound.eq_of_locked (h : meeting.Sound outcome first state)
    (hphase : meeting.phases[caller]? = some phase) (hlocked : phase.isLocked = true)
    {other : Nat} {otherPhase : Phase} (hother : meeting.phases[other]? = some otherPhase)
    (hotherLocked : otherPhase.isLocked = true) : other = caller := by
  have hcaller := h.holder caller phase hphase hlocked
  rw [h.holder other otherPhase hother hotherLocked] at hcaller
  exact Option.some.inj hcaller

/-- The second look: a caller inside the lock that is not at an attempt itself and sees no tables
knows that nobody is at one. -/
theorem Sound.eq_idle_of_locked (h : meeting.Sound outcome first state)
    (hphase : meeting.phases[caller]? = some phase) (hlocked : phase.isLocked = true)
    (hidle : phase.attempt? = none) (hpublished : meeting.published = none) : state = .idle := by
  cases hstate : state with
  | idle => rfl
  | trying other attempt =>
    obtain ⟨otherPhase, hother, hattempt⟩ := h.trying other attempt hstate
    obtain rfl := h.eq_of_locked hphase hlocked hother (Phase.isLocked_of_attempt? hattempt)
    rw [hphase] at hother
    obtain rfl := Option.some.inj hother
    rw [hidle] at hattempt
    cases hattempt
  | done publication =>
    rw [h.published, hstate] at hpublished
    cases hpublished

/-! ## Steps -/

theorem cases_of_getElem?_move (hphase : meeting.phases[caller]? = some phase) {next : Phase}
    {other : Nat} {otherPhase : Phase}
    (h : (meeting.move caller next).phases[other]? = some otherPhase) :
    (other = caller ∧ otherPhase = next)
      ∨ (other ≠ caller ∧ meeting.phases[other]? = some otherPhase) := by
  have hlt := (List.getElem?_eq_some_iff.mp hphase).1
  by_cases hother : other = caller
  · subst hother
    rw [move, List.getElem?_set_self hlt] at h
    exact Or.inl ⟨rfl, (Option.some.inj h).symm⟩
  · rw [move, List.getElem?_set_ne (Ne.symm hother)] at h
    exact Or.inr ⟨hother, h⟩

theorem getElem?_move_self (hphase : meeting.phases[caller]? = some phase) (next : Phase) :
    (meeting.move caller next).phases[caller]? = some next :=
  List.getElem?_set_self (List.getElem?_eq_some_iff.mp hphase).1

theorem getElem?_move_of_ne {other : Nat} (h : other ≠ caller) (next : Phase) :
    (meeting.move caller next).phases[other]? = meeting.phases[other]? :=
  List.getElem?_set_ne (Ne.symm h)

/-- A caller that goes on and notes nothing. The lock may pass to it, or from it. -/
theorem Sound.quietly (h : meeting.Sound outcome first state)
    (hphase : meeting.phases[caller]? = some phase) {next : Phase} {holder : Option Nat}
    (hothers : ∀ other (otherPhase : Phase), other ≠ caller →
      meeting.phases[other]? = some otherPhase → otherPhase.isLocked = true →
        holder = some other)
    (hlocked : next.isLocked = true → holder = some caller)
    (hattempt : next.attempt? = phase.attempt?)
    (hknows : next.Knows outcome meeting.history state caller) :
    ({ meeting with holder := holder }.move caller next).Sound outcome first state where
  orderly := h.orderly
  published := h.published
  knows other otherPhase hother := by
    rcases cases_of_getElem?_move hphase hother with ⟨rfl, rfl⟩ | ⟨-, hother⟩
    · exact hknows
    · exact h.knows other otherPhase hother
  holder other otherPhase hother hotherLocked := by
    rcases cases_of_getElem?_move hphase hother with ⟨rfl, rfl⟩ | ⟨hne, hother⟩
    · exact hlocked hotherLocked
    · exact hothers other otherPhase hne hother hotherLocked
  trying other attempt hstate := by
    obtain ⟨otherPhase, hother, hnumber⟩ := h.trying other attempt hstate
    by_cases hsame : other = caller
    · subst hsame
      rw [hphase] at hother
      obtain rfl := Option.some.inj hother
      exact ⟨next, getElem?_move_self hphase next, hattempt.trans hnumber⟩
    · exact ⟨otherPhase, (getElem?_move_of_ne hsame next).trans hother, hnumber⟩

/-- A caller inside the lock that notes an event of its attempt. -/
theorem Sound.noting (h : meeting.Sound outcome first state)
    (hphase : meeting.phases[caller]? = some phase) (hlocked : phase.isLocked = true)
    (hunpublished : state.published? = none) {next : Phase} (hnext : next.isLocked = true)
    {event : BuildEvent} {loads : Nat} {published : Option Publication} {after : BuildState}
    (horderly : Orderly outcome first (event :: meeting.history) loads after)
    (hpublished : published = after.published?)
    (hattempt : ∀ other attempt, after = .trying other attempt →
      other = caller ∧ next.attempt? = some attempt)
    (hknows : next.Knows outcome (event :: meeting.history) after caller) :
    (({ meeting with loads := loads, published := published }.move caller next).note event).Sound
      outcome first after where
  orderly := horderly
  published := hpublished
  knows other otherPhase hother := by
    rcases cases_of_getElem?_move hphase hother with ⟨rfl, rfl⟩ | ⟨hne, hother⟩
    · exact hknows
    · have hunlocked : otherPhase.isLocked = false := by
        cases hcase : otherPhase.isLocked with
        | false => rfl
        | true => exact absurd (h.eq_of_locked hphase hlocked hother hcase) hne
      exact (h.knows other otherPhase hother).note hunlocked hunpublished event after
  holder other otherPhase hother hotherLocked := by
    rcases cases_of_getElem?_move hphase hother with ⟨rfl, rfl⟩ | ⟨-, hother⟩
    · exact h.holder other phase hphase hlocked
    · exact h.holder other otherPhase hother hotherLocked
  trying other attempt hafter := by
    obtain ⟨rfl, hnumber⟩ := hattempt other attempt hafter
    exact ⟨next, getElem?_move_self hphase next, hnumber⟩

/-- One step keeps the meeting sound, and once tables are published it notes nothing. -/
theorem Sound.step (h : meeting.Sound outcome first state) {next : Meeting}
    (hstep : meeting.step outcome caller = some next) :
    ∃ after, next.Sound outcome first after
      ∧ ∀ publication, state = .done publication → after = state ∧ next.history = meeting.history := by
  unfold Meeting.step at hstep
  cases hphase : meeting.phases[caller]? with
  | none => simp only [hphase, reduceCtorEq] at hstep
  | some phase =>
    have hknows := h.knows caller phase hphase
    have hholder := h.holder caller phase hphase
    have hothers : ∀ other (otherPhase : Phase), other ≠ caller →
        meeting.phases[other]? = some otherPhase → otherPhase.isLocked = true →
          meeting.holder = some other := fun other otherPhase _ => h.holder other otherPhase
    simp only [hphase] at hstep
    cases phase with
    | arriving =>
      cases hpublished : meeting.published with
      | none =>
        simp only [hpublished, Option.some.injEq] at hstep
        subst hstep
        exact ⟨state, h.quietly hphase hothers nofun rfl trivial, fun _ _ => ⟨rfl, rfl⟩⟩
      | some publication =>
        simp only [hpublished, Option.some.injEq] at hstep
        subst hstep
        have hanswer : state.published? = some publication := h.published ▸ hpublished
        exact ⟨state, h.quietly hphase hothers nofun rfl hanswer, fun _ _ => ⟨rfl, rfl⟩⟩
    | waiting =>
      cases hfree : meeting.holder with
      | some holder => simp only [hfree, reduceCtorEq] at hstep
      | none =>
        simp only [hfree, Option.some.injEq] at hstep
        subst hstep
        refine ⟨state, h.quietly hphase ?_ (fun _ => rfl) rfl trivial, fun _ _ => ⟨rfl, rfl⟩⟩
        intro other otherPhase hne hother hlocked
        have hheld := hothers other otherPhase hne hother hlocked
        rw [hfree] at hheld
        cases hheld
    | entered =>
      cases hpublished : meeting.published with
      | none =>
        simp only [hpublished, Option.some.injEq] at hstep
        subst hstep
        have hidle := h.eq_idle_of_locked hphase rfl rfl hpublished
        exact ⟨state, h.quietly hphase hothers hholder rfl hidle, fun _ _ => ⟨rfl, rfl⟩⟩
      | some publication =>
        simp only [hpublished, Option.some.injEq] at hstep
        subst hstep
        have hanswer : state.published? = some publication := h.published ▸ hpublished
        exact ⟨state, h.quietly hphase hothers hholder rfl hanswer, fun _ _ => ⟨rfl, rfl⟩⟩
    | cleared =>
      obtain rfl : state = .idle := hknows
      obtain rfl := Option.some.inj hstep
      refine ⟨.trying caller meeting.loads, ?_, nofun⟩
      refine h.noting hphase rfl rfl rfl (h.orderly.started caller) h.published ?_ rfl
      intro other attempt hsame
      cases hsame
      exact ⟨rfl, rfl⟩
    | loading attempt =>
      obtain rfl := Option.some.inj hstep
      have htrying : state = .trying caller attempt := hknows
      exact ⟨state, h.quietly hphase hothers hholder rfl ⟨htrying, rfl⟩, fun _ _ => ⟨rfl, rfl⟩⟩
    | building attempt loaded =>
      obtain ⟨rfl, rfl⟩ : state = .trying caller attempt ∧ loaded = outcome attempt := hknows
      cases hload : Publication.ofLoad attempt (outcome attempt) with
      | error error =>
        simp only [hload, Option.some.injEq] at hstep
        subst hstep
        refine ⟨.idle, ?_, nofun⟩
        exact h.noting hphase rfl rfl rfl (h.orderly.failed hload) h.published nofun
          ⟨attempt, List.mem_cons_self, hload⟩
      | ok publication =>
        simp only [hload, Option.some.injEq] at hstep
        subst hstep
        obtain rfl := attempt_of_ofLoad hload
        exact ⟨_, h.quietly hphase hothers hholder rfl ⟨rfl, hload⟩, fun _ _ => ⟨rfl, rfl⟩⟩
    | publishing publication =>
      obtain ⟨rfl, hload⟩ : state = .trying caller publication.attempt
        ∧ Publication.ofLoad publication.attempt (outcome publication.attempt) = .ok publication :=
          hknows
      have hunpublished : meeting.published = none := h.published
      simp only [hunpublished, Option.some.injEq] at hstep
      subst hstep
      refine ⟨.done publication, ?_, nofun⟩
      exact h.noting hphase rfl rfl rfl (h.orderly.published hload) rfl nofun rfl
    | leaving answer =>
      obtain rfl := Option.some.inj hstep
      refine ⟨state, h.quietly hphase ?_ nofun rfl hknows, fun _ _ => ⟨rfl, rfl⟩⟩
      intro other otherPhase hne hother hlocked
      exact absurd (h.eq_of_locked hphase rfl hother hlocked) hne
    | finished answer => simp only [reduceCtorEq] at hstep

/-! ## Schedules -/

theorem Sound.run (h : meeting.Sound outcome first state) (schedule : List Nat) :
    ∃ after, (meeting.run outcome schedule).Sound outcome first after
      ∧ ∀ publication, state = .done publication →
        after = state ∧ (meeting.run outcome schedule).history = meeting.history := by
  induction schedule generalizing meeting state with
  | nil => exact ⟨state, h, fun _ _ => ⟨rfl, rfl⟩⟩
  | cons caller schedule ih =>
    cases hstep : meeting.step outcome caller with
    | none =>
      have hrun : meeting.run outcome (caller :: schedule) = meeting.run outcome schedule := by
        simp only [Meeting.run, hstep, Option.getD_none]
      rw [hrun]
      exact ih h
    | some next =>
      have hrun : meeting.run outcome (caller :: schedule) = next.run outcome schedule := by
        simp only [Meeting.run, hstep, Option.getD_some]
      rw [hrun]
      obtain ⟨between, hnext, hsettled⟩ := h.step hstep
      obtain ⟨after, hafter, hstill⟩ := ih hnext
      refine ⟨after, hafter, fun publication hdone => ?_⟩
      obtain ⟨rfl, hhistory⟩ := hsettled publication hdone
      obtain ⟨hsame, hmore⟩ := hstill publication hdone
      exact ⟨hsame, hmore.trans hhistory⟩

theorem Sound.isTrying_eq (h : meeting.Sound outcome first state) :
    state.isTrying = meeting.phases.any Phase.isAttempt := by
  cases hany : meeting.phases.any Phase.isAttempt with
  | true =>
    obtain ⟨phase, hmem, hattempt⟩ := List.any_eq_true.mp hany
    obtain ⟨caller, hphase⟩ := List.mem_iff_getElem?.mp hmem
    have hknows := h.knows caller phase hphase
    cases phase with
    | loading attempt =>
      obtain rfl : state = .trying caller attempt := hknows
      rfl
    | building attempt loaded =>
      obtain ⟨rfl, -⟩ : state = .trying caller attempt ∧ loaded = outcome attempt := hknows
      rfl
    | publishing publication =>
      obtain ⟨rfl, -⟩ : state = .trying caller publication.attempt ∧ _ := hknows
      rfl
    | _ => cases hattempt
  | false =>
    cases state with
    | trying caller attempt =>
      obtain ⟨phase, hphase, hattempt⟩ := h.trying caller attempt rfl
      have hnone := List.any_eq_false.mp hany phase (List.mem_of_getElem? hphase)
      rw [Phase.isAttempt, hattempt] at hnone
      exact absurd rfl hnone
    | _ => rfl

end

/-! ## Accounts -/

/-- What a meeting shows of the loads and the answers so far; `first` is the number of the first
load. -/
structure Accounted (outcome : Nat → Except LexiconError Lexicon) (first : Nat)
    (meeting : Meeting) : Prop where
  /-- No two callers are at an attempt. -/
  alone : ∀ (caller other : Nat) (phase otherPhase : Phase), meeting.phases[caller]? = some phase →
    meeting.phases[other]? = some otherPhase → phase.isAttempt = true →
      otherPhase.isAttempt = true → other = caller
  /-- Behind the start of an attempt comes its end, if anything has happened since. -/
  ended : ∀ later caller attempt earlier,
    meeting.history = later ++ .started caller attempt :: earlier →
      later = [] ∨ ∃ rest, later = rest ++ [.failed caller attempt]
        ∨ later = rest ++ [.published caller attempt]
  /-- Published tables are those of an attempt, and stay; no load starts any more. -/
  settled : ∀ publication, meeting.published = some publication →
    (∃ caller, .published caller publication.attempt ∈ meeting.history)
      ∧ Publication.ofLoad publication.attempt (outcome publication.attempt) = .ok publication
      ∧ ∀ more, (meeting.run outcome more).published = some publication
        ∧ (meeting.run outcome more).history = meeting.history
        ∧ (meeting.run outcome more).loads = meeting.loads
  publications : meeting.history.countP BuildEvent.isPublication = meeting.published.isSome.toNat
  starts : meeting.history.countP BuildEvent.isStart =
    meeting.history.countP BuildEvent.isFailure +
      meeting.history.countP BuildEvent.isPublication +
        (meeting.phases.any Phase.isAttempt).toNat
  loads : meeting.loads = first + meeting.history.countP BuildEvent.isStart
  /-- Who has an answer has the published tables, or the error of an attempt of its own. -/
  answered : ∀ (caller : Nat) answer, meeting.phases[caller]? = some (.finished answer) →
    (∃ publication, answer = .ok publication ∧ meeting.published = some publication)
      ∨ ∃ error attempt, answer = .error error ∧ .started caller attempt ∈ meeting.history
        ∧ .failed caller attempt ∈ meeting.history
        ∧ Publication.ofLoad attempt (outcome attempt) = .error error

theorem Sound.accounted {outcome : Nat → Except LexiconError Lexicon} {first : Nat}
    {state : BuildState} {meeting : Meeting} (h : meeting.Sound outcome first state) :
    meeting.Accounted outcome first := by
  obtain ⟨hloads, hpublications, hstarts⟩ := h.orderly.account
  rw [← h.published] at hpublications
  rw [h.isTrying_eq] at hstarts
  refine ⟨?_, ?_, ?_, hpublications, hstarts, hloads, ?_⟩
  · intro caller other phase otherPhase hphase hother hattempt hotherAttempt
    obtain ⟨_, hnumber⟩ := Option.isSome_iff_exists.mp hattempt
    obtain ⟨_, hotherNumber⟩ := Option.isSome_iff_exists.mp hotherAttempt
    exact h.eq_of_locked hphase (Phase.isLocked_of_attempt? hnumber) hother
      (Phase.isLocked_of_attempt? hotherNumber)
  · intro later caller attempt earlier hhistory
    have horderly := h.orderly
    rw [hhistory] at horderly
    exact horderly.ended_of_started
  · intro publication hpublished
    obtain rfl : state = .done publication := by
      rw [h.published] at hpublished
      cases state with
      | done other => exact congrArg BuildState.done (Option.some.inj hpublished)
      | _ => cases hpublished
    obtain ⟨hload, hmem⟩ := h.orderly.mem_published
    refine ⟨hmem, hload, fun more => ?_⟩
    obtain ⟨after, hafter, hstill⟩ := h.run more
    obtain ⟨rfl, hhistory⟩ := hstill publication rfl
    refine ⟨hafter.published, hhistory, ?_⟩
    rw [hloads, hafter.orderly.account.1, hhistory]
  · intro caller answer hphase
    have hjustified : Justified outcome meeting.history state.published? caller answer :=
      h.knows caller _ hphase
    rw [← h.published] at hjustified
    cases answer with
    | ok publication => exact Or.inl ⟨publication, rfl, hjustified⟩
    | error error =>
      obtain ⟨attempt, hmem, hfailed⟩ := hjustified
      exact Or.inr ⟨error, attempt, rfl, h.orderly.mem_started_of_failed hmem, hmem, hfailed⟩

/-- Any number of callers that ask a catalog without tables, in any interleaving and whatever each
load gives, do so one attempt at a time, with one publication at most. -/
theorem accounted_run_gather (outcome : Nat → Except LexiconError Lexicon) (callers loads : Nat)
    (schedule : List Nat) :
    ((gather callers loads none).run outcome schedule).Accounted outcome loads := by
  obtain ⟨_, hsound, -⟩ := (sound_gather callers loads).run schedule
  exact hsound.accounted

end Meeting

end FeatureLines
