import FeatureLines.Catalog.Questions
import FeatureLines.Document.Classify
import FeatureLines.Proofs.Settings.Held

/-!
# From the settings file to what a catalog reads

The path in a settings file is seen from the workspace once, when the file is
loaded, and is then only passed on: to the settings that are held, from them to
the source of a catalog, and from the source to the file system at each load.
`SeenFrom` says which path comes out, without `joinPath`, and `Source.Follows`
says what a source that has this path gives at each load.

An empty path is the case to watch. Seen from a workspace it would be the
workspace itself and no longer empty, so it has to reach validation as it is.

A catalog is used while its settings go on being loaded. `Session` has the held
settings and every catalog made from them so far. `step_other` is the frame: only
a call to a catalog changes it. `repliesOf_eq` is the run, by induction on the
events.
-/

namespace FeatureLines

/-! ## Which path comes out -/

/-- The keyword source of a workspace, by what its settings file gives. -/
inductive SeenFrom (root : Text) : Option Text → Option Text → Prop where
  | bundled : SeenFrom root none none
  | absolute (names : Text) : SeenFrom root (some ('/' :: names)) (some ('/' :: names))
  /-- Nothing is put before the path that is not there already. -/
  | below {path : Text} (relative : path.head? ≠ some '/') (given : path ≠ [])
      (closed : root = [] ∨ root.getLast? = some '/') :
      SeenFrom root (some path) (some (root ++ path))
  | slashed {path : Text} (relative : path.head? ≠ some '/') (given : path ≠ [])
      (named : root ≠ []) (unclosed : root.getLast? ≠ some '/') :
      SeenFrom root (some path) (some (root ++ '/' :: path))

namespace Settings

variable {root : Text} {settings : Settings}

theorem seenFrom_keywordSource_of_some {path : Text} (h : settings.keywordSource = some path)
    (given : path ≠ []) : (settings.seenFrom root).keywordSource = some (joinPath root path) := by
  simp [seenFrom, h, given]

/-- An empty path is left empty, and no other path becomes empty. -/
theorem seenFrom_keywordSource_eq_some_nil_iff (root : Text) :
    (settings.seenFrom root).keywordSource = some [] ↔ settings.keywordSource = some [] := by
  cases hsource : settings.keywordSource with
  | none => simp [seenFrom, hsource]
  | some path =>
    by_cases given : path = []
    · simp [seenFrom, hsource, given]
    · rw [seenFrom_keywordSource_of_some hsource given]
      simp [joinPath_ne_nil given, given]

/-- So settings are valid as seen from a workspace when they are valid as given. -/
theorem seenFrom_valid_iff (root : Text) : (settings.seenFrom root).Valid ↔ settings.Valid := by
  constructor
  · rintro ⟨language, plain, source⟩
    exact ⟨language, plain, mt (seenFrom_keywordSource_eq_some_nil_iff root).mpr source⟩
  · rintro ⟨language, plain, source⟩
    exact ⟨language, plain, mt (seenFrom_keywordSource_eq_some_nil_iff root).mp source⟩

theorem joinPath_seenFrom (root : Text) {path : Text} (given : path ≠ []) :
    SeenFrom root (some path) (some (joinPath root path)) := by
  by_cases habsolute : path.head? = some '/'
  · obtain ⟨names, rfl⟩ := List.head?_eq_some_iff.mp habsolute
    rw [joinPath_of_isAbsolute (by simp [isAbsolute])]
    exact .absolute names
  · have hrelative : isAbsolute path = false := by simp [isAbsolute, habsolute]
    by_cases hclosed : root = [] ∨ root.getLast? = some '/'
    · have hjoin : joinPath root path = root ++ path := by
        rcases hclosed with hempty | hslash
        · simp [joinPath, hrelative, hempty]
        · simp [joinPath, hrelative, hslash]
      rw [hjoin]
      exact .below habsolute given hclosed
    · obtain ⟨hnamed, hunclosed⟩ := not_or.mp hclosed
      have hjoin : joinPath root path = root ++ '/' :: path := by
        simp [joinPath, hrelative, hnamed, hunclosed]
      rw [hjoin]
      exact .slashed habsolute given hnamed hunclosed

theorem Valid.seenFrom_keywordSource (h : settings.Valid) (root : Text) :
    SeenFrom root settings.keywordSource (settings.seenFrom root).keywordSource := by
  have hgiven := h.source
  cases hsource : settings.keywordSource with
  | none =>
    rw [show (settings.seenFrom root).keywordSource = none by simp [seenFrom, hsource]]
    exact .bundled
  | some path =>
    have given : path ≠ [] := fun hempty => hgiven (by rw [hsource, hempty])
    rw [seenFrom_keywordSource_of_some hsource given]
    exact joinPath_seenFrom root given

/-- A load of settings that were decoded is their validation, seen from the workspace. -/
theorem load_eq_validate {files : Files} {text : Text}
    (file : files.settingsAt root = some (.ok (Utf8.encode text)))
    (decoded : ofText text = .ok settings) :
    load files root = (settings.seenFrom root).validate := by
  rw [load_eq_match, file]
  simp only [Utf8.decode_eq_ok_iff.mpr rfl, decoded]

end Settings

/-! ## What the source of a catalog reads -/

namespace Source

/-- At each load the source gives the lexicon in the file at the path, or the bundled one. -/
inductive Follows : Option Text → Source → Prop where
  | bundled {source : Source} (resource : source.resource = bundledName)
      (load : ∀ files n, source.load files n = .ok bundledLexicon) : Follows none source
  | file {path : Text} {source : Source} (resource : source.resource = path)
      (unreadable : ∀ files n cause, files.read path = .error cause →
        source.load files n = .error (.unreadable path cause))
      (load : ∀ files n bytes, files.read path = .ok bytes →
        source.load files n = Lexicon.parse path bytes) : Follows (some path) source

theorem ofFile_follows (path : Text) : Follows (some path) (ofFile path) :=
  .file rfl (fun files n cause h => by simp [ofFile, h])
    (fun files n bytes h => by simp [ofFile, h])

theorem bundled_follows : Follows none bundled := .bundled rfl fun _ _ => rfl

/-- What is read at each load leaves no choice, so nothing else can be seen of a source. -/
theorem Follows.unique {path : Option Text} {source other : Source} (h : Follows path source)
    (hother : Follows path other) : source = other := by
  obtain ⟨resource, load⟩ := source
  obtain ⟨otherResource, otherLoad⟩ := other
  cases h with
  | bundled hresource hload =>
    cases hother with
    | bundled hotherResource hotherLoad =>
      obtain rfl : resource = otherResource := hresource.trans hotherResource.symm
      congr
      funext files n
      exact (hload files n).trans (hotherLoad files n).symm
  | file hresource hunreadable hload =>
    cases hother with
    | file hotherResource hotherUnreadable hotherLoad =>
      obtain rfl : resource = otherResource := hresource.trans hotherResource.symm
      congr
      funext files n
      cases hread : files.read _ with
      | error cause =>
        exact (hunreadable files n cause hread).trans (hotherUnreadable files n cause hread).symm
      | ok bytes => exact (hload files n bytes hread).trans (hotherLoad files n bytes hread).symm

end Source

theorem Settings.catalog_eq_ofSource {settings : Settings} {source : Source}
    (h : source.Follows settings.keywordSource) :
    settings.catalog = Catalog.ofSource source settings.defaultLanguage := by
  unfold catalog
  congr 1
  cases hsource : settings.keywordSource with
  | none =>
    rw [hsource] at h
    exact Source.bundled_follows.unique h
  | some path =>
    rw [hsource] at h
    exact (Source.ofFile_follows path).unique h

/-! ## Calls to a catalog -/

/-- What a catalog is called for: an answer, or the lines of a document. -/
inductive Call where
  | ask (question : Question)
  | classify (document : Text)

inductive Reply where
  | answer (answer : Answer)
  | document (outcome : Except Catalog.Failure RecognisedDocument)

namespace Catalog

def serve (files : Files) (catalog : Catalog) : Call → Reply × Catalog
  | .ask question => ((catalog.ask files question).map .answer id)
  | .classify document => ((catalog.classify files document).map .document id)

/-- What a catalog replies to calls, each with the files as they are at its moment. -/
def replies (catalog : Catalog) : List (Files × Call) → List Reply
  | [] => []
  | (files, call) :: calls =>
    (catalog.serve files call).1 :: replies (catalog.serve files call).2 calls

end Catalog

/-! ## Loads and calls in any order -/

/-- The held settings, and the catalogs that were made from held settings, numbered from zero. -/
structure Session where
  held : HeldSettings
  catalogs : List Catalog

/-- What can happen in a session. -/
inductive Session.Event where
  | load (root : Text)
  | newCatalog
  | call (number : Nat) (call : Call)

namespace Session

/-- The call to the catalog with this number, if the event is one. -/
def Event.callTo (number : Nat) : Event → Option Call
  | .call n asked => if n = number then some asked else none
  | _ => none

/-- What an event leaves behind, and the reply if it is a call to a catalog that is there. -/
def step (files : Files) (session : Session) : Event → Option Reply × Session
  | .load root => (none, { session with held := (session.held.load files root).2 })
  | .newCatalog => (none, { session with catalogs := session.catalogs ++ [session.held.catalog] })
  | .call number call =>
    match session.catalogs[number]? with
    | none => (none, session)
    | some catalog =>
      (some (catalog.serve files call).1,
        { session with catalogs := session.catalogs.set number (catalog.serve files call).2 })

/-- The replies to the calls to one catalog in a session. -/
def repliesOf (number : Nat) (session : Session) : List (Files × Event) → List Reply
  | [] => []
  | (files, event) :: events =>
    let stepped := session.step files event
    match event.callTo number with
    | none => repliesOf number stepped.2 events
    | some _ => stepped.1.toList ++ repliesOf number stepped.2 events

/-- The calls to one catalog, without whatever happens between them. -/
def callsOf (number : Nat) (events : List (Files × Event)) : List (Files × Call) :=
  events.filterMap fun event => (event.2.callTo number).map (event.1, ·)

variable {session : Session} {number : Nat} {catalog : Catalog}

/-- An event that is not a call to a catalog leaves it as it is. -/
theorem step_other (h : session.catalogs[number]? = some catalog) (files : Files) {event : Event}
    (hother : event.callTo number = none) :
    (session.step files event).2.catalogs[number]? = some catalog := by
  cases event with
  | load root => exact h
  | newCatalog =>
    obtain ⟨hnumber, -⟩ := List.getElem?_eq_some_iff.mp h
    exact (List.getElem?_append_left hnumber).trans h
  | call n call =>
    have hne : n ≠ number := by
      rintro rfl
      simp [Event.callTo] at hother
    cases hn : session.catalogs[n]? with
    | none => simpa [step, hn] using h
    | some another => simpa [step, hn, List.getElem?_set_ne hne] using h

theorem step_call (h : session.catalogs[number]? = some catalog) (files : Files) (call : Call) :
    (session.step files (.call number call)).1 = some (catalog.serve files call).1
      ∧ (session.step files (.call number call)).2.catalogs[number]? =
        some (catalog.serve files call).2 := by
  obtain ⟨hnumber, -⟩ := List.getElem?_eq_some_iff.mp h
  simp [step, h, List.getElem?_set_self hnumber]

theorem eq_call_of_callTo {event : Event} {call : Call} (h : event.callTo number = some call) :
    event = .call number call := by
  cases event with
  | load root => cases h
  | newCatalog => cases h
  | call n other =>
    simp only [Event.callTo] at h
    split at h
    · next hn =>
      cases h
      rw [hn]
    · cases h

/-- A catalog replies in a session as it replies to its calls alone. -/
theorem repliesOf_eq (h : session.catalogs[number]? = some catalog)
    (events : List (Files × Event)) :
    session.repliesOf number events = catalog.replies (callsOf number events) := by
  induction events generalizing session catalog with
  | nil => rfl
  | cons next events ih =>
    obtain ⟨files, event⟩ := next
    cases hcall : event.callTo number with
    | none =>
      have hrest := ih (step_other h files hcall)
      simpa only [repliesOf, hcall, callsOf, List.filterMap_cons, Option.map_none] using hrest
    | some call =>
      obtain rfl := eq_call_of_callTo hcall
      obtain ⟨hreply, hbehind⟩ := step_call h files call
      have hrest := ih hbehind
      simp only [repliesOf, hcall, callsOf, List.filterMap_cons, Option.map_some, Catalog.replies,
        hreply, Option.toList, List.cons_append, List.nil_append]
      exact congrArg _ hrest

/-- A catalog that has just been made stands behind all others. -/
theorem repliesOf_newCatalog (held : HeldSettings) (catalogs : List Catalog) (files : Files)
    (events : List (Files × Event)) :
    repliesOf catalogs.length ⟨held, catalogs⟩ ((files, .newCatalog) :: events) =
      held.catalog.replies (callsOf catalogs.length events) := by
  have hnew : (step files ⟨held, catalogs⟩ .newCatalog).2.catalogs[catalogs.length]? =
      some held.catalog := by
    simp [step]
  exact repliesOf_eq hnew events

end Session

/-! ## The settings file decides what its catalog reads -/

namespace HeldSettings

/-- Loading what has been loaded changes nothing, how often it is done. -/
theorem load_behind_replicate {files : Files} {root : Text} {settings : Settings}
    (h : Settings.load files root = .ok settings) (held : HeldSettings) (n : Nat) :
    (held.behind (List.replicate n (files, root))).load files root = (.ok settings, ⟨settings⟩) := by
  have hload : ((held.behind (List.replicate n (files, root))).load files root).1 = .ok settings :=
    (load_eq files root _).trans h
  exact Prod.ext hload (load_of_ok hload)

variable {files : Files} {root text : Text} {settings : Settings}

/-- What a settings file comes to that can be decoded. An empty path in it is refused, whatever the
workspace is called, and what was held stays. Valid settings are taken over with their path seen
from the workspace once, however often they are loaded. A catalog made then replies, between any
loads and any calls to other catalogs, as one whose source reads the file at this path anew at each
load. -/
theorem load_of_decoded (file : files.settingsAt root = some (.ok (Utf8.encode text)))
    (decoded : Settings.ofText text = .ok settings) (held : HeldSettings) :
    let result := held.load files root
    (settings.keywordSource = some [] → ∃ errors, result = (.error (.invalid errors), held)
        ∧ ∃ error ∈ errors, error.field = "keywordSource")
      ∧ ((∃ loaded, result.1 = .ok loaded) ↔ settings.Valid)
      ∧ ∀ loaded, result.1 = .ok loaded →
        loaded.defaultLanguage = settings.defaultLanguage
          ∧ SeenFrom root settings.keywordSource loaded.keywordSource
          ∧ loaded.keywordSource ≠ some []
          ∧ (∀ n, (held.behind (List.replicate n (files, root))).load files root =
              (.ok loaded, ⟨loaded⟩))
          ∧ ∀ source, Source.Follows loaded.keywordSource source → ∀ catalogs moment events,
            Session.repliesOf catalogs.length ⟨result.2, catalogs⟩ ((moment, .newCatalog) :: events) =
              (Catalog.ofSource source settings.defaultLanguage).replies
                (Session.callsOf catalogs.length events) := by
  intro result
  have hload := Settings.load_eq_validate file decoded
  have hresult : result.1 = (settings.seenFrom root).validate :=
    (load_eq files root held).trans hload
  refine ⟨fun hempty => ?_, ?_, fun loaded hloaded => ?_⟩
  · have hseen := (Settings.seenFrom_keywordSource_eq_some_nil_iff root).mpr hempty
    have hwrong : ¬ (settings.seenFrom root).Valid := fun hvalid => hvalid.source hseen
    rw [Settings.validate_of_not_valid hwrong] at hresult
    refine ⟨_, Prod.ext hresult (load_of_error hresult), ?_⟩
    simp [Settings.faults, Settings.sourceFaults, hseen]
  · rw [← Settings.seenFrom_valid_iff root]
    simp only [hresult, Settings.validate_eq_ok_iff]
    exact ⟨fun ⟨_, hvalid, _⟩ => hvalid, fun hvalid => ⟨_, hvalid, rfl⟩⟩
  · have hheld : result.2 = ⟨loaded⟩ := load_of_ok hloaded
    obtain ⟨hvalid, rfl⟩ := Settings.validate_eq_ok_iff.mp (hresult.symm.trans hloaded)
    refine ⟨rfl, ((Settings.seenFrom_valid_iff root).mp hvalid).seenFrom_keywordSource root,
      hvalid.source, load_behind_replicate (hload.trans hvalid.validate_eq) held,
      fun source follows catalogs moment events => ?_⟩
    rw [hheld, Session.repliesOf_newCatalog]
    exact congrArg (Catalog.replies · _) (Settings.catalog_eq_ofSource follows)

/-- The catalog of a workspace `w` whose settings name `kw.json` reads the file `w/kw.json`. -/
theorem load_of_decoded_below :
    let text := "\x7b\"keywordSource\":\"kw.json\"\x7d".toList
    let files := Files.ofReadings [("w/.gherkin-i18n.json".toList, .ok (Utf8.encode text))]
    let result := initial.load files "w".toList
    files.settingsAt "w".toList = some (.ok (Utf8.encode text))
      ∧ Settings.ofText text = .ok ⟨some "kw.json".toList, "en".toList⟩
      ∧ result.1 = .ok ⟨some "w/kw.json".toList, "en".toList⟩
      ∧ ∀ catalogs moment events,
        Session.repliesOf catalogs.length ⟨result.2, catalogs⟩ ((moment, .newCatalog) :: events) =
          (Catalog.ofSource (.ofFile "w/kw.json".toList) "en".toList).replies
            (Session.callsOf catalogs.length events) := by
  intro text files result
  have hfile : files.settingsAt "w".toList = some (.ok (Utf8.encode text)) := by rfl
  have hdecoded : Settings.ofText text = .ok ⟨some "kw.json".toList, "en".toList⟩ := by rfl
  have hresult : result.1 = .ok ⟨some "w/kw.json".toList, "en".toList⟩ := by rfl
  obtain ⟨-, -, htaken⟩ := load_of_decoded hfile hdecoded initial
  obtain ⟨-, -, -, -, hcatalog⟩ := htaken _ hresult
  exact ⟨hfile, hdecoded, hresult, hcatalog _ (Source.ofFile_follows _)⟩

end HeldSettings

end FeatureLines
