import FeatureLines.Proofs.Text.Utf8
import FeatureLines.Settings.Held

/-!
# What is held after any loads

Settings may be loaded any number of times, from any workspaces, while the files
change in between. Two facts hold at every point of such a run: what is held is
valid, and the next load sees nothing of the loads before it.

`Settings.LoadsTo` says what a load comes to, and it says it of the workspace
and of what is at the place of its settings file; the held settings do not occur
in it. `load_loadsTo` is the step that finds this outcome, and `Reachable.valid`
the invariant: a load that fails puts nothing in the place of what is held, and
one that succeeds puts there what it has found valid.
-/

namespace FeatureLines

namespace Settings

/-! ## Valid settings -/

/-- Settings with which nothing is wrong. -/
structure Valid (settings : Settings) : Prop where
  language : settings.defaultLanguage ≠ []
  plain : ∀ c ∈ settings.defaultLanguage, isBlank c = false
  source : settings.keywordSource ≠ some []

theorem languageFaults_eq_nil_iff {code : Text} :
    languageFaults code = [] ↔ code ≠ [] ∧ ∀ c ∈ code, isBlank c = false := by
  unfold languageFaults
  by_cases hempty : code = []
  · simp [hempty]
  · by_cases hblank : code.any isBlank = true
    · simp only [List.isEmpty_iff, hempty, hblank, if_false, if_true]
      constructor
      · intro h
        cases h
      · rintro ⟨-, hplain⟩
        obtain ⟨c, hc, hcblank⟩ := List.any_eq_true.mp hblank
        rw [hplain c hc] at hcblank
        cases hcblank
    · simp only [List.isEmpty_iff, hempty, hblank, if_false]
      refine ⟨fun _ => ⟨hempty, fun c hc => ?_⟩, fun _ => rfl⟩
      cases hc' : isBlank c with
      | false => rfl
      | true => exact absurd (List.any_eq_true.mpr ⟨c, hc, hc'⟩) hblank

theorem sourceFaults_eq_nil_iff {path : Option Text} : sourceFaults path = [] ↔ path ≠ some [] := by
  unfold sourceFaults
  by_cases hpath : path = some [] <;> simp [hpath]

theorem faults_eq_nil_iff {settings : Settings} : settings.faults = [] ↔ settings.Valid := by
  unfold faults
  rw [List.append_eq_nil_iff, languageFaults_eq_nil_iff, sourceFaults_eq_nil_iff]
  constructor
  · rintro ⟨⟨language, plain⟩, source⟩
    exact ⟨language, plain, source⟩
  · rintro ⟨language, plain, source⟩
    exact ⟨⟨language, plain⟩, source⟩

theorem Valid.validate_eq {settings : Settings} (h : settings.Valid) :
    settings.validate = .ok settings := by
  unfold validate
  rw [faults_eq_nil_iff.mpr h]
  rfl

theorem validate_of_not_valid {settings : Settings} (h : ¬ settings.Valid) :
    settings.validate = .error (.invalid settings.faults) := by
  unfold validate
  have hfaults : settings.faults ≠ [] := mt faults_eq_nil_iff.mp h
  rw [if_neg (by simpa using hfaults)]

theorem validate_eq_ok_iff {settings loaded : Settings} :
    settings.validate = .ok loaded ↔ settings.Valid ∧ loaded = settings := by
  by_cases h : settings.Valid
  · simp [h, h.validate_eq, eq_comm]
  · simp [h, validate_of_not_valid h]

theorem standard_valid : standard.Valid := faults_eq_nil_iff.mp rfl

end Settings

/-! ## One load -/

/-- What is at the place of the settings file of a workspace: nothing, or what reading it gives. -/
def Files.settingsAt (files : Files) (root : Text) : Option (Except FileError (List UInt8)) :=
  if files.present (joinPath root settingsFile) then some (files.read (joinPath root settingsFile))
  else none

namespace Settings

/-- The settings that are given to a workspace by what is at the place of its settings file. -/
inductive GivenBy (root : Text) : Option (Except FileError (List UInt8)) → Settings → Prop where
  | absent : GivenBy root none standard
  | file {text : Text} {settings : Settings} (parsed : ofText text = .ok settings) :
      GivenBy root (some (.ok (Utf8.encode text))) (settings.seenFrom root)

/-- What loading the settings of a workspace comes to. -/
inductive LoadsTo (root : Text) :
    Option (Except FileError (List UInt8)) → Except Failure Settings → Prop where
  | unreadable (cause : FileError) :
      LoadsTo root (some (.error cause)) (.error (.unreadable cause))
  | notText {bytes : List UInt8} (malformed : ¬ Utf8.WellFormed bytes) :
      LoadsTo root (some (.ok bytes)) (.error (.unreadable .notText))
  | unparsable {text : Text} {fault : Json.Fault} (parsed : ofText text = .error fault) :
      LoadsTo root (some (.ok (Utf8.encode text))) (.error (.unparsable fault))
  | invalid {file : Option (Except FileError (List UInt8))} {settings : Settings}
      (given : GivenBy root file settings) (wrong : ¬ settings.Valid) :
      LoadsTo root file (.error (.invalid settings.faults))
  | valid {file : Option (Except FileError (List UInt8))} {settings : Settings}
      (given : GivenBy root file settings) (right : settings.Valid) : LoadsTo root file (.ok settings)

variable {files otherFiles : Files} {root : Text} {file : Option (Except FileError (List UInt8))}
  {settings : Settings}

/-- Validation is the last part of a load, whatever gave the settings. -/
theorem GivenBy.loadsTo_validate (given : GivenBy root file settings) :
    LoadsTo root file settings.validate := by
  by_cases h : settings.Valid
  · rw [h.validate_eq]
    exact .valid given h
  · rw [validate_of_not_valid h]
    exact .invalid given h

/-- The reading of a settings file that is there, up to validation. -/
theorem ofWorkspace_of_present (h : files.present (joinPath root settingsFile) = true) :
    ofWorkspace files root =
      match files.readText (joinPath root settingsFile) with
      | .error cause => .error (.unreadable cause)
      | .ok text =>
        match ofText text with
        | .error fault => .error (.unparsable fault)
        | .ok settings => .ok (settings.seenFrom root) := by
  unfold ofWorkspace
  exact if_pos h

theorem ofWorkspace_of_absent (h : files.present (joinPath root settingsFile) = false) :
    ofWorkspace files root = .ok standard := by
  unfold ofWorkspace
  exact if_neg (by simp [h])

/-- A load takes what is at the place of the settings file and nothing else. -/
theorem load_eq_match (files : Files) (root : Text) :
    load files root =
      match files.settingsAt root with
      | none => .ok standard
      | some (.error cause) => .error (.unreadable cause)
      | some (.ok bytes) =>
        match Utf8.decode bytes with
        | .error _ => .error (.unreadable .notText)
        | .ok text =>
          match ofText text with
          | .error fault => .error (.unparsable fault)
          | .ok settings => (settings.seenFrom root).validate := by
  unfold load Files.settingsAt
  cases hpresent : files.present (joinPath root settingsFile) with
  | false =>
    rw [ofWorkspace_of_absent hpresent]
    exact standard_valid.validate_eq
  | true =>
    rw [ofWorkspace_of_present hpresent, if_pos rfl]
    unfold Files.readText
    cases files.read (joinPath root settingsFile) with
    | error cause => rfl
    | ok bytes =>
      cases hdecode : Utf8.decode bytes with
      | error fault => simp only [hdecode]
      | ok text =>
        cases hparsed : ofText text with
        | error fault => simp only [hdecode, hparsed]
        | ok settings => simp only [hdecode, hparsed]

theorem load_loadsTo (files : Files) (root : Text) :
    LoadsTo root (files.settingsAt root) (load files root) := by
  rw [load_eq_match]
  cases files.settingsAt root with
  | none => exact .valid .absent standard_valid
  | some reading =>
    cases reading with
    | error cause => exact .unreadable cause
    | ok bytes =>
      cases hdecode : Utf8.decode bytes with
      | error fault =>
        simp only [hdecode]
        refine .notText ?_
        rintro ⟨text, htext⟩
        rw [Utf8.decode_eq_ok_iff.mpr htext] at hdecode
        cases hdecode
      | ok text =>
        simp only [hdecode]
        obtain rfl := Utf8.decode_eq_ok_iff.mp hdecode
        cases hparsed : ofText text with
        | error fault => exact .unparsable hparsed
        | ok settings => exact (GivenBy.file hparsed).loadsTo_validate

/-- A load comes to one thing only. -/
theorem LoadsTo.load_eq {result : Except Failure Settings}
    (h : LoadsTo root (files.settingsAt root) result) : load files root = result := by
  rw [load_eq_match]
  have hdecode (text : Text) : Utf8.decode (Utf8.encode text) = .ok text :=
    Utf8.decode_eq_ok_iff.mpr rfl
  generalize files.settingsAt root = file at h
  cases h with
  | unreadable cause => rfl
  | @notText bytes malformed =>
    cases hbytes : Utf8.decode bytes with
    | error fault => simp only [hbytes]
    | ok text => exact absurd ⟨text, Utf8.decode_eq_ok_iff.mp hbytes⟩ malformed
  | unparsable parsed => simp only [hdecode, parsed]
  | invalid given wrong =>
    cases given with
    | absent => exact absurd standard_valid wrong
    | file parsed => simp only [hdecode, parsed, validate_of_not_valid wrong]
  | valid given right =>
    cases given with
    | absent => rfl
    | file parsed => simp only [hdecode, parsed, right.validate_eq]

theorem LoadsTo.valid_of_ok (h : LoadsTo root file (.ok settings)) : settings.Valid := by
  cases h with
  | valid _ right => exact right

/-- Nothing but what is at the place of the settings file is seen of the files. -/
theorem load_congr (h : otherFiles.settingsAt root = files.settingsAt root) :
    load otherFiles root = load files root := by
  rw [load_eq_match, load_eq_match, h]

theorem load_of_absent (h : files.settingsAt root = none) :
    load files root = .ok standard := by
  rw [load_eq_match, h]

end Settings

namespace HeldSettings

theorem load_eq (files : Files) (root : Text) (held : HeldSettings) :
    (held.load files root).1 = Settings.load files root := by
  unfold load
  cases Settings.load files root <;> rfl

theorem load_of_error {files : Files} {root : Text} {held : HeldSettings}
    {failure : Settings.Failure} (h : (held.load files root).1 = .error failure) :
    (held.load files root).2 = held := by
  rw [load_eq] at h
  unfold load
  rw [h]

theorem load_of_ok {files : Files} {root : Text} {held : HeldSettings} {settings : Settings}
    (h : (held.load files root).1 = .ok settings) : (held.load files root).2 = ⟨settings⟩ := by
  rw [load_eq] at h
  unfold load
  rw [h]

/-! ## Runs -/

/-- A load keeps valid what is held: it fails, or it has found valid what it puts there. -/
theorem load_valid {held : HeldSettings} (h : held.current.Valid) (files : Files) (root : Text) :
    (held.load files root).2.current.Valid := by
  have houtcome := Settings.load_loadsTo files root
  rw [← load_eq files root held] at houtcome
  cases hload : (held.load files root).1 with
  | error failure =>
    rw [load_of_error hload]
    exact h
  | ok settings =>
    rw [load_of_ok hload]
    rw [hload] at houtcome
    exact houtcome.valid_of_ok

theorem Reachable.valid {held : HeldSettings} (h : Reachable held) : held.current.Valid := by
  induction h with
  | initial => exact Settings.standard_valid
  | load files root _ ih => exact load_valid ih files root

/-- What is held after loads, each with the files as they are at its moment. -/
def behind (held : HeldSettings) : List (Files × Text) → HeldSettings
  | [] => held
  | (files, root) :: loads => behind (held.load files root).2 loads

theorem Reachable.behind {held : HeldSettings} (h : Reachable held)
    (loads : List (Files × Text)) : Reachable (held.behind loads) := by
  induction loads generalizing held with
  | nil => exact h
  | cons next loads ih => exact ih (.load next.1 next.2 h)

/-- After any loads what is held is valid. The next load comes to what the workspace and its
settings file say, whatever was loaded before: if it fails, what is held stays, and if it succeeds,
its settings are held. Without a settings file these are the standard ones. -/
theorem load_behind_initial (loads : List (Files × Text)) (files : Files) (root : Text) :
    let held := initial.behind loads
    let loaded := held.load files root
    held.current.Valid ∧ held.current.validate = .ok held.current
      ∧ Settings.LoadsTo root (files.settingsAt root) loaded.1
      ∧ (∀ failure, loaded.1 = .error failure → loaded.2 = held)
      ∧ (∀ settings, loaded.1 = .ok settings → loaded.2 = ⟨settings⟩)
      ∧ (files.settingsAt root = none → loaded = (.ok .standard, ⟨.standard⟩))
      ∧ ∀ otherLoads otherFiles, otherFiles.settingsAt root = files.settingsAt root →
        ((initial.behind otherLoads).load otherFiles root).1 = loaded.1 := by
  intro held loaded
  have hvalid : held.current.Valid := (Reachable.initial.behind loads).valid
  refine ⟨hvalid, hvalid.validate_eq, ?_, fun failure => load_of_error, fun settings => load_of_ok,
    fun habsent => ?_, fun otherLoads otherFiles hsame => ?_⟩
  · rw [load_eq]
    exact Settings.load_loadsTo files root
  · have hload : loaded.1 = .ok .standard := by rw [load_eq, Settings.load_of_absent habsent]
    exact Prod.ext hload (load_of_ok hload)
  · rw [load_eq, load_eq, Settings.load_congr hsame]

end HeldSettings

end FeatureLines
