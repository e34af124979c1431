import FeatureLines.Catalog.Basic

/-!
# Building a catalog while many ask

Any number of callers may ask a catalog at once. A caller looks for published
tables; if it sees none it takes the lock, looks again, and only then loads and
builds. What it publishes, or the error that it met, it carries out of the lock.

Each of these is one step that no other caller can divide, and `Meeting.step` is
the next step of one caller. It has none while it waits for a lock that another
caller holds, and none after its answer. A schedule is a list of callers; every
interleaving is the run of one. The history tells when loads started and how
they ended.
-/

namespace FeatureLines

/-- Where a caller stands. -/
inductive Phase where
  /-- It has not looked for tables yet. -/
  | arriving
  /-- It saw no tables and wants the lock. -/
  | waiting
  /-- It holds the lock and has not looked again. -/
  | entered
  /-- It holds the lock and saw no tables. -/
  | cleared
  /-- It loads the source. -/
  | loading (attempt : Nat)
  /-- It has what the load gave and builds the tables. -/
  | building (attempt : Nat) (loaded : Except LexiconError Lexicon)
  /-- It has built tables and publishes them. -/
  | publishing (publication : Publication)
  /-- It has its answer and still holds the lock. -/
  | leaving (answer : Except LexiconError Publication)
  /-- It has its answer. -/
  | finished (answer : Except LexiconError Publication)

def Phase.answer? : Phase → Option (Except LexiconError Publication)
  | .finished answer => some answer
  | _ => none

/-- What happens to loads. -/
inductive BuildEvent where
  | started (caller attempt : Nat)
  | failed (caller attempt : Nat)
  | published (caller attempt : Nat)
  deriving Repr, DecidableEq

/-- Callers that ask one catalog. -/
structure Meeting where
  /-- The tables published so far. -/
  published : Option Publication
  /-- The caller that holds the lock. -/
  holder : Option Nat
  /-- How many loads have been started. -/
  loads : Nat
  /-- Where each caller stands. -/
  phases : List Phase
  /-- What has happened to loads, the latest first. -/
  history : List BuildEvent

namespace Meeting

/-- Callers that are about to ask a catalog. -/
def gather (callers loads : Nat) (published : Option Publication) : Meeting :=
  ⟨published, none, loads, List.replicate callers .arriving, []⟩

def move (meeting : Meeting) (caller : Nat) (phase : Phase) : Meeting :=
  { meeting with phases := meeting.phases.set caller phase }

def note (meeting : Meeting) (event : BuildEvent) : Meeting :=
  { meeting with history := event :: meeting.history }

/-- The next step of a caller, if it can take one; `outcome` says what each load gives. -/
def step (outcome : Nat → Except LexiconError Lexicon) (caller : Nat) (meeting : Meeting) :
    Option Meeting :=
  match meeting.phases[caller]? with
  | none => none
  | some .arriving =>
    match meeting.published with
    | some publication => some (meeting.move caller (.finished (.ok publication)))
    | none => some (meeting.move caller .waiting)
  | some .waiting =>
    match meeting.holder with
    | some _ => none
    | none => some ({ meeting with holder := some caller }.move caller .entered)
  | some .entered =>
    match meeting.published with
    | some publication => some (meeting.move caller (.leaving (.ok publication)))
    | none => some (meeting.move caller .cleared)
  | some .cleared =>
    let attempt := meeting.loads
    some (({ meeting with loads := attempt + 1 }.move caller (.loading attempt)).note
      (.started caller attempt))
  | some (.loading attempt) => some (meeting.move caller (.building attempt (outcome attempt)))
  | some (.building attempt loaded) =>
    match Publication.ofLoad attempt loaded with
    | .error error =>
      some ((meeting.move caller (.leaving (.error error))).note (.failed caller attempt))
    | .ok publication => some (meeting.move caller (.publishing publication))
  | some (.publishing publication) =>
    match meeting.published with
    | some earlier => some (meeting.move caller (.leaving (.ok earlier)))
    | none =>
      some (({ meeting with published := some publication }.move caller
        (.leaving (.ok publication))).note (.published caller publication.attempt))
  | some (.leaving answer) =>
    some ({ meeting with holder := none }.move caller (.finished answer))
  | some (.finished _) => none

/-- Lets callers take steps in the order of a schedule; one that can take none is passed over. -/
def run (outcome : Nat → Except LexiconError Lexicon) (meeting : Meeting) :
    List Nat → Meeting
  | [] => meeting
  | caller :: schedule => run outcome ((meeting.step outcome caller).getD meeting) schedule

/-- The schedule in which all callers take turns, this many times. -/
def turns (callers rounds : Nat) : List Nat :=
  (List.replicate rounds (List.range callers)).flatten

/-- How many rounds of turns bring every caller to its answer: within nine of them the caller
that holds the lock leaves it, or some caller takes it. -/
def roundsFor (callers : Nat) : Nat := 10 * (callers + 1)

end Meeting

/-- The answers of callers that ask for one language at once, taking turns. -/
def Catalog.tableTogether (files : Files) (callers : Nat) (code : Text)
    (catalog : Catalog) : List (Except Catalog.Failure SharedTable) × Catalog :=
  let meeting := (Meeting.gather callers catalog.loads catalog.published).run
    (catalog.source.load files) (Meeting.turns callers (Meeting.roundsFor callers))
  let answers := meeting.phases.filterMap Phase.answer?
  (answers.map fun answer =>
      match answer with
      | .error error => .error (.noTables error)
      | .ok publication => publication.tableOf code,
    { catalog with loads := meeting.loads, published := meeting.published })

/-- Whether all answers are one and the same table, or none is a table. -/
def agree (answers : List (Except Catalog.Failure SharedTable)) : Bool :=
  let tables := answers.filterMap Except.toOption
  tables.isEmpty || (tables.length == answers.length && tables.all (some · == tables.head?))

end FeatureLines
