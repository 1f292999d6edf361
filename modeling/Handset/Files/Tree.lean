import Handset.Fault
import Handset.Files.Content
import Handset.Path
import Handset.Table

/-!
# File trees

A file tree is a table of directories, files and links below an implicit root directory. Paths are
followed as a file system follows them: piece by piece from the root, through links, with `..` going
to the parent of the directory reached so far. Relative paths start at the root.
-/
namespace Handset

/-- Where something stands in a tree: the names from the innermost to the outermost. -/
abbrev Place := List String

inductive Node where
  | directory
  | file (content : Content)
  | link (target : String)
deriving DecidableEq, Inhabited

structure FileTree where
  nodes : Table Place Node := []
deriving DecidableEq, Inhabited

namespace FileTree

/-- What stands at a place; the root is a directory. -/
def node? (t : FileTree) (place : Place) : Option Node :=
  if place.isEmpty then some .directory else t.nodes.find? place

def put (t : FileTree) (place : Place) (node : Node) : FileTree :=
  ⟨t.nodes.put place node⟩

def names (path : String) : List String :=
  (Path.split path).filter fun piece => piece != ""

def linkLimit : Nat := 40

def nameLimit : Nat := 255

def pathLimit : Nat := 4096

/-- Follows pieces from a directory. All places on the way have to be directories; the last one may be
missing, and is followed through a link only if `follow` is set. The pieces of a link's target, with
those that are left, are handed to `jump`. -/
def walkWith (t : FileTree) (follow : Bool) (jump : Place → List String → Except Fault Place) :
    Place → List String → Except Fault Place
  | base, [] => .ok base
  | base, piece :: rest =>
    if piece = "." then walkWith t follow jump base rest
    else if piece = ".." then walkWith t follow jump base.tail rest
    else if nameLimit < piece.utf8ByteSize then .error .systemRefused
    else match t.node? (piece :: base) with
      | some (.link target) =>
        if rest.isEmpty && !follow then .ok (piece :: base)
        else jump (if target.startsWith "/" then [] else base) (names target ++ rest)
      | some .directory => walkWith t follow jump (piece :: base) rest
      | some (.file _) => if rest.isEmpty then .ok (piece :: base) else .error .notADirectory
      | none => if rest.isEmpty then .ok (piece :: base) else .error .fileNotFound

/-- Follows pieces from a directory through at most so many links. -/
def walk (t : FileTree) (follow : Bool) : (hops : Nat) → Place → List String → Except Fault Place
  | 0 => t.walkWith follow fun _ _ => .error .systemRefused
  | hops + 1 => t.walkWith follow (walk t follow hops)

def locate (t : FileTree) (follow : Bool) (path : String) : Except Fault Place :=
  if path.toList.contains (Char.ofNat 0) then .error .badValue
  else if path.isEmpty then .error .fileNotFound
  else if pathLimit ≤ path.utf8ByteSize then .error .systemRefused
  else t.walk follow linkLimit [] (names path)

def look (t : FileTree) (follow : Bool) (path : String) : Except Fault (Place × Node) := do
  let place ← t.locate (follow || path.endsWith "/") path
  match t.node? place with
  | none => throw .fileNotFound
  | some .directory => pure (place, .directory)
  | some node => if path.endsWith "/" then throw .notADirectory else pure (place, node)

def pathExists (t : FileTree) (path : String) : Bool :=
  (t.look true path).isOk

def isDirectory (t : FileTree) (path : String) : Bool :=
  match t.look true path with
  | .ok (_, .directory) => true
  | _ => false

def isFile (t : FileTree) (path : String) : Bool :=
  match t.look true path with
  | .ok (_, .file _) => true
  | _ => false

def isLink (t : FileTree) (path : String) : Bool :=
  match t.look false path with
  | .ok (_, .link _) => true
  | _ => false

def fileAt (t : FileTree) (path : String) : Except Fault (Place × Content) := do
  match ← t.look true path with
  | (place, .file content) => pure (place, content)
  | _ => throw .isADirectory

def read (t : FileTree) (path : String) : Except Fault Bytes :=
  (t.fileAt path).map (·.2.toBytes)

def setContent (t : FileTree) (path : String) (content : Content) : Except Fault FileTree := do
  let place ← t.locate true path
  match t.node? place with
  | some .directory => throw .isADirectory
  | some _ => if path.endsWith "/" then throw .notADirectory else pure (t.put place (.file content))
  | none => if path.endsWith "/" then throw .isADirectory else pure (t.put place (.file content))

def write (t : FileTree) (path : String) (bytes : Bytes) : Except Fault FileTree :=
  t.setContent path (.ofBytes bytes)

/-- The tree without what stands at a place. -/
def without (t : FileTree) (place : Place) : FileTree :=
  ⟨t.nodes.filter (·.1 != place)⟩

def remove (t : FileTree) (path : String) : Except Fault FileTree := do
  match ← t.look false path with
  | (_, .directory) => throw .isADirectory
  | (place, _) => pure (t.without place)

def makeDirectory (t : FileTree) (path : String) : Except Fault FileTree := do
  let place ← t.locate false path
  match t.node? place with
  | some _ => throw .fileExists
  | none => pure (t.put place .directory)

def makeLink (t : FileTree) (path target : String) : Except Fault FileTree := do
  let place ← t.locate false path
  match t.node? place with
  | some _ => throw .fileExists
  | none => pure (t.put place (.link target))

def list (t : FileTree) (path : String) : Except Fault (List String) := do
  match ← t.look true path with
  | (place, .directory) => pure (t.nodes.filterMap fun (q, _) => match q with
    | name :: parent => if parent = place then some name else none
    | [] => none)
  | _ => throw .notADirectory

def headAndLast (path : String) : String × String :=
  let body := if path.endsWith "/" then Path.dirName path else path
  (Path.dirName body, Path.baseName body)

/-- The most directories, each in the one before, that are made at once. -/
def levelLimit : Nat := 985

def lacksHead (t : FileTree) (path : String) : Bool :=
  !(headAndLast path).1.isEmpty && !(headAndLast path).2.isEmpty && !t.pathExists (headAndLast path).1

/-- Makes the last directory of a path. A last piece that stands for its own directory has been made
with those above it, if they were missing. -/
def makeLast (existing : Bool) (t : FileTree) (path : String) (missing : Bool) : FileTree × Option Fault :=
  if missing && (headAndLast path).2 = "." then (t, none)
  else match t.makeDirectory path with
    | .ok t => (t, none)
    | .error fault =>
      if fault ≠ .badValue && existing && t.isDirectory path then (t, none) else (t, some fault)

/-- Goes on with the last directory of a path after those above it: that one of them was there already
does no harm. -/
def makeBelow (existing : Bool) (path : String) (missing : Bool) (above : FileTree × Option Fault) :
    FileTree × Option Fault :=
  match above.2 with
  | none | some .fileExists => makeLast existing above.1 path missing
  | some fault => (above.1, some fault)

/-- Makes the missing directories above a path and then the directory itself, `depth` levels at most.
Nothing is made if there are more. -/
def makeLevels (existing : Bool) : (depth : Nat) → FileTree → String → FileTree × Option Fault
  | 0, t, _ => (t, some .nestedTooDeeply)
  | depth + 1, t, path =>
    makeBelow existing path (t.lacksHead path)
      (if t.lacksHead path then makeLevels existing depth t (headAndLast path).1 else (t, none))

/-- Makes a directory and the missing ones above it. What was made stays when a later step fails. A
directory that is there already is a failure unless `existing` allows it. -/
def makeDirectories (t : FileTree) (existing : Bool) (path : String) : FileTree × Option Fault :=
  makeLevels existing levelLimit t path

def removeTree (t : FileTree) (path : String) : Except Fault FileTree := do
  match ← t.look false path with
  | (place, .directory) =>
    pure ⟨t.nodes.filter fun (q, _) => !(place.isSuffixOf q)⟩
  | (_, .link _) => throw .systemRefused
  | _ => throw .notADirectory

def filesBelow (t : FileTree) (place : Place) : List String :=
  t.nodes.filterMap fun (q, node) =>
    match node with
    | .file _ =>
      if place.isSuffixOf q then
        some (String.intercalate "/" (q.take (q.length - place.length)).reverse)
      else none
    | _ => none

end FileTree

end Handset
