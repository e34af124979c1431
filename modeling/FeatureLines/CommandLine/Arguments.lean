import FeatureLines.Text.Basic

/-!
# Arguments of the program

The program takes one feature file and any number of workspaces, of which the
last one counts. Arguments are read from left to right; what follows
`--workspace` is a folder, whatever it looks like. The first argument that does
not belong where it stands is refused; a missing document shows only at the end.
-/

namespace FeatureLines

/-- Why arguments were refused. -/
inductive UsageError where
  /-- `--workspace` is the last argument. -/
  | workspaceWithoutFolder
  | unknownOption (flag : Text)
  | unexpectedArgument (argument : Text)
  | missingDocument
  deriving Repr, DecidableEq

def UsageError.message : UsageError → String
  | .workspaceWithoutFolder => "--workspace needs a directory"
  | .unknownOption flag => "unknown option '" ++ String.ofList flag ++ "'"
  | .unexpectedArgument argument => "unexpected argument '" ++ String.ofList argument ++ "'"
  | .missingDocument => "missing feature file"

structure Arguments where
  document : Text
  workspace : Option Text
  deriving Repr, DecidableEq

def workspaceOption : Text := "--workspace".toList

/-- Whether an argument looks like an option. -/
def isOption (argument : Text) : Bool := startsWith ['-', '-'] argument

namespace Arguments

/-- Reads on, with what has been read so far. -/
def parseFrom (document workspace : Option Text) : List Text → Except UsageError Arguments
  | [] =>
    match document with
    | some document => .ok ⟨document, workspace⟩
    | none => .error .missingDocument
  | argument :: rest =>
    if argument = workspaceOption then
      match rest with
      | [] => .error .workspaceWithoutFolder
      | folder :: rest => parseFrom document (some folder) rest
    else if isOption argument then .error (.unknownOption argument)
    else
      match document with
      | some _ => .error (.unexpectedArgument argument)
      | none => parseFrom (some argument) workspace rest

def parse (arguments : List Text) : Except UsageError Arguments := parseFrom none none arguments

end Arguments

end FeatureLines
