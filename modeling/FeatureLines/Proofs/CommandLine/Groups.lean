import FeatureLines.CommandLine.Arguments

/-!
# Groups of arguments

Whether an argument is an option, a folder or a document depends on what stands
before it: behind `--workspace` anything is a folder, `--workspace` included.
`ArgumentGroup` puts together what belongs together, so a list of groups says
without any reading what its arguments mean, and `written` gives the arguments.
A document that looks like an option cannot be written, and this is why the
groups of given arguments are determined.

`Arguments.parse_written_iff` says that arguments are accepted exactly when they
are written groups with one document. All others have groups up to the first
argument that offends (`FirstOffence`), or nothing but workspaces. Both follow
the reading, which takes a whole group at each turn (`exists_groups_of_parseFrom`).
-/

namespace FeatureLines

/-- An argument that names a document: it does not look like an option. -/
abbrev DocumentArgument := { path : Text // isOption path = false }

/-- Arguments that belong together. -/
inductive ArgumentGroup where
  | workspace (folder : Text)
  | document (path : DocumentArgument)

namespace ArgumentGroup

def arguments : ArgumentGroup → List Text
  | .workspace folder => [workspaceOption, folder]
  | .document path => [path.1]

def folder? : ArgumentGroup → Option Text
  | .workspace folder => some folder
  | .document _ => none

def document? : ArgumentGroup → Option Text
  | .workspace _ => none
  | .document path => some path.1

/-- The arguments of groups, one group after the other. -/
def written (groups : List ArgumentGroup) : List Text := groups.flatMap arguments

/-- The folders of the workspaces among groups, in their order. -/
def folders (groups : List ArgumentGroup) : List Text := groups.filterMap folder?

/-- The documents among groups, in their order. -/
def documents (groups : List ArgumentGroup) : List Text := groups.filterMap document?

/-- The last workspace counts. -/
theorem getLast?_folders_workspace (folder : Text) (groups : List ArgumentGroup)
    (earlier : Option Text) :
    (folders (.workspace folder :: groups)).getLast?.or earlier =
      (folders groups).getLast?.or (some folder) := by
  show (folder :: folders groups).getLast?.or earlier = _
  rw [List.getLast?_cons]
  cases (folders groups).getLast? <;> rfl

theorem folders_workspaces (names : List Text) : folders (names.map .workspace) = names := by
  rw [folders, List.filterMap_map]
  exact List.filterMap_some

theorem documents_workspaces (names : List Text) : documents (names.map .workspace) = [] := by
  rw [documents, List.filterMap_map]
  exact List.filterMap_eq_nil_iff.mpr fun _ _ => rfl

/-- Groups without a document are workspaces. -/
theorem eq_workspaces_of_documents_eq_nil {groups : List ArgumentGroup}
    (h : documents groups = []) : groups = (folders groups).map .workspace := by
  induction groups with
  | nil => rfl
  | cons group groups ih =>
    cases group with
    | workspace folder => exact congrArg (ArgumentGroup.workspace folder :: ·) (ih h)
    | document path => cases h

end ArgumentGroup

open ArgumentGroup

theorem DocumentArgument.ne_workspaceOption (path : DocumentArgument) :
    path.1 ≠ workspaceOption := by
  intro h
  have hoption : isOption workspaceOption = true := by decide
  have hplain := path.2
  rw [h, hoption] at hplain
  cases hplain

/-- The first argument that does not belong where it stands. What stands before it is complete, and
holds no second document. -/
inductive FirstOffence (given : List Text) : UsageError → Prop where
  | workspaceWithoutFolder (groups : List ArgumentGroup) (before : (documents groups).length ≤ 1)
      (split : given = written groups ++ [workspaceOption]) :
      FirstOffence given .workspaceWithoutFolder
  | unknownOption (groups : List ArgumentGroup) (flag : Text) (rest : List Text)
      (before : (documents groups).length ≤ 1) (option : isOption flag = true)
      (unknown : flag ≠ workspaceOption) (split : given = written groups ++ flag :: rest) :
      FirstOffence given (.unknownOption flag)
  | unexpectedArgument (groups : List ArgumentGroup) (path : DocumentArgument) (rest : List Text)
      (before : (documents groups).length = 1) (split : given = written groups ++ path.1 :: rest) :
      FirstOffence given (.unexpectedArgument path.1)

namespace Arguments

/-! ## One group -/

section

variable (document workspace : Option Text) (rest : List Text)

theorem parseFrom_workspace (folder : Text) :
    parseFrom document workspace (workspaceOption :: folder :: rest) =
      parseFrom document (some folder) rest := by
  rw [parseFrom.eq_def]
  exact if_pos rfl

theorem parseFrom_lone_workspace :
    parseFrom document workspace [workspaceOption] = .error .workspaceWithoutFolder := by
  rw [parseFrom.eq_def]
  exact if_pos rfl

theorem parseFrom_option {flag : Text} (option : isOption flag = true)
    (unknown : flag ≠ workspaceOption) :
    parseFrom document workspace (flag :: rest) = .error (.unknownOption flag) := by
  rw [parseFrom.eq_def]
  simp only [if_neg unknown, if_pos option]

theorem parseFrom_document (path : DocumentArgument) :
    parseFrom document workspace (path.1 :: rest) =
      match document with
      | some _ => .error (.unexpectedArgument path.1)
      | none => parseFrom (some path.1) workspace rest := by
  have hplain : ¬ isOption path.1 = true := by simp [path.2]
  rw [parseFrom.eq_def]
  cases document <;> simp only [if_neg path.ne_workspaceOption, if_neg hplain]

end

/-! ## All groups -/

/-- Groups with at most one document are read as what they say, and the reading goes on behind
them. -/
theorem parseFrom_written {document : Option Text} {groups : List ArgumentGroup}
    (once : (document.toList ++ documents groups).length ≤ 1) (workspace : Option Text)
    (rest : List Text) :
    parseFrom document workspace (written groups ++ rest) =
      parseFrom (document.or (documents groups).head?)
        ((folders groups).getLast?.or workspace) rest := by
  induction groups generalizing document workspace with
  | nil => cases document <;> rfl
  | cons group groups ih =>
    cases group with
    | workspace folder =>
      rw [getLast?_folders_workspace]
      exact (parseFrom_workspace document workspace _ folder).trans (ih once (some folder))
    | document path =>
      cases document with
      | some other =>
        simp [documents, document?] at once
      | none =>
        have hnone : documents groups = [] := by
          simpa [documents, document?] using once
        have first : ((some path.1).toList ++ documents groups).length ≤ 1 := by simp [hnone]
        exact (parseFrom_document none workspace _ path).trans (ih first workspace)

theorem parse_written_append {groups : List ArgumentGroup} (once : (documents groups).length ≤ 1)
    (rest : List Text) :
    parse (written groups ++ rest) =
      parseFrom (documents groups).head? (folders groups).getLast? rest := by
  have none : ((none : Option Text).toList ++ documents groups).length ≤ 1 := once
  rw [parse, parseFrom_written none, Option.or_none]
  rfl

/-- What stands behind groups may be exchanged for what is read alike. -/
theorem parseFrom_written_congr {a b : List Text}
    (h : ∀ document workspace, parseFrom document workspace a = parseFrom document workspace b)
    (groups : List ArgumentGroup) (document workspace : Option Text) :
    parseFrom document workspace (written groups ++ a) =
      parseFrom document workspace (written groups ++ b) := by
  induction groups generalizing document workspace with
  | nil => exact h document workspace
  | cons group groups ih =>
    cases group with
    | workspace folder =>
      exact (parseFrom_workspace document workspace _ folder).trans
        ((ih document (some folder)).trans
          (parseFrom_workspace document workspace _ folder).symm)
    | document path =>
      have hread := fun x => parseFrom_document document workspace (written groups ++ x) path
      cases document with
      | some other => exact (hread a).trans (hread b).symm
      | none => exact (hread a).trans ((ih (some path.1) workspace).trans (hread b).symm)

/-- A document may stand before or behind workspaces, whatever comes before and follows. -/
theorem parse_document_workspaces (before : List ArgumentGroup) (path : DocumentArgument)
    (names rest : List Text) :
    parse (written (before ++ .document path :: names.map .workspace) ++ rest) =
      parse (written (before ++ names.map .workspace ++ [.document path]) ++ rest) := by
  have hmoved : ∀ document workspace,
      parseFrom document workspace (path.1 :: (written (names.map .workspace) ++ rest)) =
        parseFrom document workspace (written (names.map .workspace) ++ path.1 :: rest) := by
    intro document workspace
    have hnames : ∀ document : Option Text,
        (document.toList ++ documents (names.map .workspace)).length ≤ 1 := by
      intro document
      rw [documents_workspaces]
      cases document <;> simp
    rw [parseFrom_document, parseFrom_written (hnames document), documents_workspaces,
      folders_workspaces]
    cases document with
    | some other => exact (parseFrom_document (some other) _ rest path).symm
    | none =>
      simp only [parseFrom_written (hnames (some path.1)), documents_workspaces,
        folders_workspaces]
      exact (parseFrom_document none _ rest path).symm
  have hgroups := parseFrom_written_congr hmoved before none none
  simpa [parse, written, ArgumentGroup.arguments] using hgroups

/-! ## Any arguments -/

/-- What reading came to, told by the groups up to where it ended. -/
inductive EndsWith (found : List Text) (workspace : Option Text) :
    List Text → Except UsageError Arguments → Prop where
  | accepted {document : Text} (one : found = [document]) :
      EndsWith found workspace [] (.ok ⟨document, workspace⟩)
  | missingDocument (none : found = []) :
      EndsWith found workspace [] (.error .missingDocument)
  | workspaceWithoutFolder :
      EndsWith found workspace [workspaceOption] (.error .workspaceWithoutFolder)
  | unknownOption {flag : Text} {rest : List Text} (option : isOption flag = true)
      (unknown : flag ≠ workspaceOption) :
      EndsWith found workspace (flag :: rest) (.error (.unknownOption flag))
  | unexpectedArgument {path : DocumentArgument} {rest : List Text} (one : found.length = 1) :
      EndsWith found workspace (path.1 :: rest) (.error (.unexpectedArgument path.1))

/-- Any arguments are groups with at most one document up to where the reading ends. -/
theorem exists_groups_of_parseFrom (document workspace : Option Text) (given : List Text) :
    ∃ groups rest, given = written groups ++ rest
      ∧ (document.toList ++ documents groups).length ≤ 1
      ∧ EndsWith (document.toList ++ documents groups) ((folders groups).getLast?.or workspace) rest
        (parseFrom document workspace given) := by
  fun_induction parseFrom document workspace given with
  | case1 workspace document => exact ⟨[], [], rfl, by simp [documents], .accepted rfl⟩
  | case2 workspace => exact ⟨[], [], rfl, by simp [documents], .missingDocument rfl⟩
  | case3 document workspace =>
    refine ⟨[], [workspaceOption], rfl, ?_, .workspaceWithoutFolder⟩
    cases document <;> simp [documents]
  | case4 document workspace folder rest ih =>
    obtain ⟨groups, behind, rfl, once, hends⟩ := ih
    refine ⟨.workspace folder :: groups, behind, rfl, once, ?_⟩
    rw [getLast?_folders_workspace]
    exact hends
  | case5 document workspace flag rest unknown option =>
    refine ⟨[], flag :: rest, rfl, ?_, .unknownOption option unknown⟩
    cases document <;> simp [documents]
  | case6 workspace path rest _ plain other =>
    have hplain : isOption path = false := by simpa using plain
    exact ⟨[], path :: rest, rfl, by simp [documents],
      @EndsWith.unexpectedArgument _ _ ⟨path, hplain⟩ rest rfl⟩
  | case7 workspace path rest _ plain ih =>
    have hplain : isOption path = false := by simpa using plain
    obtain ⟨groups, behind, rfl, once, hends⟩ := ih
    exact ⟨.document ⟨path, hplain⟩ :: groups, behind, rfl, once, hends⟩

theorem parse_of_firstOffence {given : List Text} {error : UsageError}
    (h : FirstOffence given error) : parse given = .error error := by
  cases h with
  | workspaceWithoutFolder groups before split =>
    subst split
    exact (parse_written_append before _).trans (parseFrom_lone_workspace _ _)
  | unknownOption groups flag rest before option unknown split =>
    subst split
    exact (parse_written_append before _).trans (parseFrom_option _ _ rest option unknown)
  | unexpectedArgument groups path rest before split =>
    subst split
    obtain ⟨other, hone⟩ := List.length_eq_one_iff.mp before
    refine (parse_written_append (by omega) _).trans ?_
    rw [hone]
    exact parseFrom_document (some other) _ rest path

theorem parse_eq_ok_iff_written {given : List Text} {parsed : Arguments} :
    parse given = .ok parsed ↔ ∃ groups, given = written groups
      ∧ documents groups = [parsed.document]
      ∧ (folders groups).getLast? = parsed.workspace := by
  constructor
  · intro h
    obtain ⟨groups, rest, rfl, -, hends⟩ := exists_groups_of_parseFrom none none given
    rw [parse] at h
    rw [h] at hends
    cases hends with
    | accepted one => exact ⟨groups, by simp, one, by simp⟩
  · rintro ⟨groups, rfl, hdocument, hfolder⟩
    have one : (documents groups).length ≤ 1 := by simp [hdocument]
    have hread := parse_written_append one []
    rw [List.append_nil, hdocument, hfolder] at hread
    rw [hread]
    cases parsed with
    | mk document workspace => cases workspace <;> rfl

theorem parse_eq_error_iff {given : List Text} {error : UsageError} :
    parse given = .error error ↔ FirstOffence given error
      ∨ error = .missingDocument ∧ ∃ names : List Text, given = written (names.map .workspace) := by
  constructor
  · intro h
    obtain ⟨groups, rest, rfl, once, hends⟩ := exists_groups_of_parseFrom none none given
    rw [parse] at h
    rw [h] at hends
    cases hends with
    | missingDocument none =>
      refine .inr ⟨rfl, folders groups, ?_⟩
      rw [← eq_workspaces_of_documents_eq_nil none, List.append_nil]
    | workspaceWithoutFolder => exact .inl (.workspaceWithoutFolder groups once rfl)
    | unknownOption option unknown =>
      exact .inl (.unknownOption groups _ _ once option unknown rfl)
    | unexpectedArgument one => exact .inl (.unexpectedArgument groups _ _ one rfl)
  · rintro (h | ⟨rfl, names, rfl⟩)
    · exact parse_of_firstOffence h
    · have no : (documents (names.map .workspace)).length ≤ 1 := by simp [documents_workspaces]
      have hread := parse_written_append no []
      rw [List.append_nil, documents_workspaces] at hread
      exact hread

/-- Arguments are accepted exactly when they are groups with one document, and then they name this
document and the last workspace. Otherwise the first argument that offends is reported, and only
where none does that the document is missing. A document may be moved over workspaces, whatever
stands before them and follows. -/
theorem parse_written_iff (given : List Text) :
    (∀ parsed, parse given = .ok parsed ↔ ∃ groups, given = written groups
        ∧ documents groups = [parsed.document]
        ∧ (folders groups).getLast? = parsed.workspace)
      ∧ (∀ error, parse given = .error error ↔ FirstOffence given error
        ∨ error = .missingDocument
          ∧ ∃ names : List Text, given = written (names.map .workspace))
      ∧ ¬ (parse given = .error .missingDocument ∧ ∃ error, FirstOffence given error)
      ∧ ∀ (before : List ArgumentGroup) (path : DocumentArgument) (names rest : List Text),
        parse (written (before ++ .document path :: names.map .workspace) ++ rest) =
          parse (written (before ++ names.map .workspace ++ [.document path]) ++ rest) := by
  refine ⟨fun _ => parse_eq_ok_iff_written, fun _ => parse_eq_error_iff, ?_, parse_document_workspaces⟩
  rintro ⟨hmissing, error, hoffence⟩
  rw [parse_of_firstOffence hoffence] at hmissing
  cases hmissing
  cases hoffence

end Arguments

end FeatureLines
