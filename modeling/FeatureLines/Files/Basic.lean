import FeatureLines.Text.Utf8

/-!
# Files

What the library asks of a file system: whether something is at a path, and the
bytes of the file there. Any answers will do, so what is proved of `Files` holds
of every file system at any moment. A path is a text in which `/` separates
names; it is never normalised.
-/

namespace FeatureLines

/-- Why a file could not be read. -/
inductive FileError where
  | notFound
  | isFolder
  | notFolder
  /-- The path, or a name in it, has more bytes than there can be. -/
  | tooLong
  /-- The path has a NUL, which no path can have. -/
  | hasNul
  /-- The bytes are not the encoding of a text. -/
  | notText
  /-- The way to the path cannot be followed, for a reason in the words of the system. -/
  | unreachable (reason : String)
  /-- Any other reason, in the words of the system. -/
  | other (reason : String)
  deriving Repr, DecidableEq

def FileError.message : FileError → String
  | .notFound => "No such file or directory (os error 2)"
  | .isFolder => "Is a directory (os error 21)"
  | .notFolder => "Not a directory (os error 20)"
  | .tooLong => "File name too long (os error 36)"
  | .hasNul => "file name contained an unexpected NUL byte"
  | .notText => "stream did not contain valid UTF-8"
  | .unreachable reason | .other reason => reason

/-- A file system at one moment. -/
structure Files where
  /-- Whether something is at the path. -/
  present : Text → Bool
  /-- The bytes of the file at the path. -/
  read : Text → Except FileError (List UInt8)

def Files.readText (files : Files) (path : Text) : Except FileError Text :=
  match files.read path with
  | .error cause => .error cause
  | .ok bytes =>
    match Utf8.decode bytes with
    | .error _ => .error .notText
    | .ok text => .ok text

/-- Whether a failed reading shows that nothing is at the path. -/
def FileError.isAbsence : FileError → Bool
  | .notFound | .notFolder | .tooLong | .hasNul | .unreachable _ => true
  | _ => false

/-- The cause of a failed reading, once it is known whether the path leads anywhere. The causes
with names of their own say so themselves. -/
def FileError.atPlace (leads : Bool) : FileError → FileError
  | .other reason => if leads then .other reason else .unreachable reason
  | cause => cause

/-- The file system of which only these readings are known; nothing is at any other path. -/
def Files.ofReadings (readings : List (Text × Except FileError (List UInt8))) : Files where
  present path :=
    match readings.lookup path with
    | none => false
    | some (.error cause) => !cause.isAbsence
    | some (.ok _) => true
  read path := (readings.lookup path).getD (.error .notFound)

/-! ## Paths -/

def isAbsolute (path : Text) : Bool := path.head? == some '/'

/-- The path as seen from a folder. An absolute path stays as it is; before another one comes
the folder and a slash, unless the folder is empty or ends with one. -/
def joinPath (folder path : Text) : Text :=
  if isAbsolute path then path
  else if folder.isEmpty || folder.getLast? == some '/' then folder ++ path
  else folder ++ '/' :: path

theorem joinPath_of_isAbsolute {folder path : Text} (h : isAbsolute path = true) :
    joinPath folder path = path := by
  simp [joinPath, h]

theorem joinPath_ne_nil {folder path : Text} (h : path ≠ []) : joinPath folder path ≠ [] := by
  unfold joinPath
  split
  · exact h
  · split <;> simp [h]

end FeatureLines
