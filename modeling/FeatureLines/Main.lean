import FeatureLines.CommandLine.Run

/-!
# The program

Reads the files that a run may ask for, runs it on what they hold, and writes
its rows or its error. All decisions are in `FeatureLines.CommandLine`.
-/

namespace FeatureLines

/-- A failed reading by the number and the name that the system gives it. Some numbers come
negated. -/
def ofSystemError (code : UInt32) (name : String) : FileError :=
  match (if code < 0x80000000 then code else 0 - code).toNat with
  | 2 => .notFound
  | 20 => .notFolder
  | 21 => .isFolder
  | 36 => .tooLong
  | 40 => .other "Too many levels of symbolic links (os error 40)"
  | n => .other (name.capitalize ++ " (os error " ++ toString n ++ ")")

/-- A failed reading, as the library names it. -/
def ofReadError : IO.Error → FileError
  | .noFileOrDirectory _ code name
  | .inappropriateType _ code name
  | .invalidArgument _ code name
  | .permissionDenied _ code name
  | .resourceExhausted _ code name => ofSystemError code name
  | error => .other (toString error)

/-- Reads the file at a path. The system may give the same reason for a file that refuses to be
read and for one that cannot be reached, so after a failure it is asked where the path leads. -/
def readPath (path : Text) : IO (Text × Except FileError (List UInt8)) := do
  if path.contains '\x00' then return (path, .error .hasNul)
  match ← (IO.FS.readBinFile (String.ofList path)).toBaseIO with
  | .ok bytes => return (path, .ok bytes.toList)
  | .error error =>
    let place ← (IO.FS.realPath (String.ofList path)).toBaseIO
    return (path, .error ((ofReadError error).atPlace place.isOk))

/-- Reads the files that a run may ask for: the settings, the document, and the keyword source
that the settings name. -/
def readFor (root : Text) (arguments : Arguments) : IO Files := do
  let first ← [joinPath root settingsFile, arguments.document].mapM readPath
  let sources :=
    match Settings.ofWorkspace (Files.ofReadings first) root with
    | .ok settings => settings.keywordSource.toList
    | .error _ => []
  let second ← sources.mapM readPath
  return Files.ofReadings (first ++ second)

end FeatureLines

open FeatureLines in
/-- Runs the program. -/
def main (arguments : List String) : IO UInt32 := do
  let arguments := arguments.map String.toList
  let current ←
    match ← IO.currentDir.toBaseIO with
    | .ok path => pure (.ok path.toString.toList)
    | .error error => pure (.error (ofReadError error))
  let files ←
    match Arguments.parse arguments with
    | .ok arguments =>
      match arguments.root current with
      | .ok root => readFor root arguments
      | .error _ => pure (Files.ofReadings [])
    | .error _ => pure (Files.ofReadings [])
  let outcome := runOutcome files current arguments
  IO.print (String.ofList outcome.output)
  if let some error := outcome.error then IO.eprintln error.message
  return outcome.code
