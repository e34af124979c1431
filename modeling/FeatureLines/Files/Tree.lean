import FeatureLines.Files.Basic

/-!
# A file tree

A file system held in memory: folders and files at absolute places, with a
working folder from which relative paths are followed. A path is followed name
by name; an empty name and `.` stay where they are, `..` goes up, and each of
them needs a folder to start from. So `a/../b` needs the folder `a`, and a slash
behind the name of a file leads nowhere.

Lengths are limited, in bytes of UTF-8: that of the path as it is written, before
any of it is followed, and that of each name when it is looked up in a folder. So
behind a missing folder a name may have any length, and nothing is found all the
same.

Writing a file or making a folder follows the path in the same way, but makes the
folders that are missing on it. So writing `a/../b` makes the folder `a` as well.
-/

namespace FeatureLines

/-- What is at a place. -/
inductive Node where
  | file (bytes : List UInt8)
  | folder
  deriving Repr, DecidableEq

/-- Files and folders by their places, each the list of names from the root. -/
structure FileTree where
  nodes : List (List Text × Node)
  working : List Text
  deriving Repr

namespace FileTree

/-- The tree that holds only the working folder. -/
def bare (working : List Text) : FileTree := ⟨[], working⟩

/-- What is at a place. The root and the folders above the working folder are always there. -/
def node? (tree : FileTree) (place : List Text) : Option Node :=
  match tree.nodes.lookup place with
  | some node => some node
  | none => if place.isPrefixOf tree.working then some .folder else none

/-- The parts of a path between its slashes. -/
def namesOf : Text → List Text
  | [] => [[]]
  | c :: path =>
    if c = '/' then [] :: namesOf path
    else
      match namesOf path with
      | [] => [[c]]
      | name :: names => (c :: name) :: names

/-- The place that one name leads to from a folder. -/
def go (place : List Text) (name : Text) : List Text :=
  if name = [] ∨ name = ['.'] then place
  else if name = ['.', '.'] then place.dropLast
  else place ++ [name]

def longestName : Nat := 255

def longestPath : Nat := 4095

/-- Follows names from a place, through folders only. -/
def follow (tree : FileTree) (place : List Text) : List Text → Except FileError (List Text)
  | [] => .ok place
  | name :: names =>
    match tree.node? place with
    | none => .error .notFound
    | some (.file _) => .error .notFolder
    | some .folder =>
      if longestName < Utf8.width name then .error .tooLong
      else follow tree (go place name) names

/-- Where following a path begins. -/
def origin (tree : FileTree) (path : Text) : List Text :=
  if isAbsolute path then [] else tree.working

/-- What is wrong with a path before any of it is followed. -/
def pathFault? (path : Text) : Option FileError :=
  if path.contains '\x00' then some .hasNul
  else if path.isEmpty then some .notFound
  else if longestPath < Utf8.width path then some .tooLong
  else none

/-- The place that a path leads to, whether or not something is there. -/
def locate (tree : FileTree) (path : Text) : Except FileError (List Text) :=
  match pathFault? path with
  | some cause => .error cause
  | none => tree.follow (tree.origin path) (namesOf path)

/-- What a path leads to. -/
def find (tree : FileTree) (path : Text) : Except FileError Node :=
  match tree.locate path with
  | .error cause => .error cause
  | .ok place =>
    match tree.node? place with
    | none => .error .notFound
    | some node => .ok node

def files (tree : FileTree) : Files where
  present path := (tree.find path).isOk
  read path :=
    match tree.find path with
    | .error cause => .error cause
    | .ok .folder => .error .isFolder
    | .ok (.file bytes) => .ok bytes

/-! ## Changes -/

def put (tree : FileTree) (place : List Text) (node : Node) : FileTree :=
  { tree with nodes := (place, node) :: tree.nodes.filter fun entry => entry.1 != place }

/-- Follows names from a folder and makes each folder that is missing before going on from it;
also the folder in which this ends. -/
def makeWay (tree : FileTree) (place : List Text) :
    List Text → Except FileError (FileTree × List Text)
  | [] => .ok (tree, place)
  | name :: names =>
    if longestName < Utf8.width name then .error .tooLong
    else
      match tree.node? (go place name) with
      | none => makeWay (tree.put (go place name) .folder) (go place name) names
      | some .folder => makeWay tree (go place name) names
      | some (.file _) => .error .notFolder

/-- Makes a folder, and those that are missing on the way to it. -/
def makeFolder (tree : FileTree) (path : Text) : Except FileError FileTree :=
  match pathFault? path with
  | some cause => .error cause
  | none =>
    match tree.makeWay (tree.origin path) (namesOf path) with
    | .error cause => .error cause
    | .ok (tree, _) => .ok tree

/-- Puts a file into a folder, in place of a file of that name. -/
def writeIn (tree : FileTree) (folder : List Text) (name : Text) (bytes : List UInt8) :
    Except FileError FileTree :=
  if longestName < Utf8.width name then .error .tooLong
  else
    match tree.node? (go folder name) with
    | some .folder => .error .isFolder
    | _ => .ok (tree.put (go folder name) (.file bytes))

/-- Writes a file, and makes the folders that are missing on the way to it. -/
def write (tree : FileTree) (path : Text) (bytes : List UInt8) : Except FileError FileTree :=
  match pathFault? path with
  | some cause => .error cause
  | none =>
    match tree.makeWay (tree.origin path) (namesOf path).dropLast with
    | .error cause => .error cause
    | .ok (tree, folder) => tree.writeIn folder ((namesOf path).getLast?.getD []) bytes

/-- Removes the file at a path. -/
def remove (tree : FileTree) (path : Text) : Except FileError FileTree :=
  match tree.locate path with
  | .error cause => .error cause
  | .ok place =>
    match tree.node? place with
    | none => .error .notFound
    | some .folder => .error .isFolder
    | some (.file _) =>
      .ok { tree with nodes := tree.nodes.filter fun entry => entry.1 != place }

end FileTree

end FeatureLines
