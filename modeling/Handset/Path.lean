/-!
# Paths

Slash-separated paths as texts: joining, normal form, the parts of a path and the way from one to
another, all without looking at a file system.
-/
namespace Handset.Path

/-- Puts `b` below `a`; an absolute `b` stands for itself. -/
def join (a b : String) : String :=
  if b.startsWith "/" then b
  else if a.isEmpty || a.endsWith "/" then a ++ b
  else a ++ "/" ++ b

def pieces : List Char → List (List Char)
  | [] => [[]]
  | c :: rest =>
    if c = '/' then [] :: pieces rest
    else match pieces rest with
      | [] => [[c]]
      | p :: more => (c :: p) :: more

def split (s : String) : List String :=
  (pieces s.toList).map String.ofList

/-- One step of bringing a path into normal form: `done` holds the kept pieces, last first. -/
def normalStep (absolute : Bool) (done : List String) (piece : String) : List String :=
  if piece = "" ∨ piece = "." then done
  else if piece ≠ ".." then piece :: done
  else match done with
    | [] => if absolute then [] else [".."]
    | last :: rest => if last = ".." then ".." :: done else rest

def normalPieces (s : String) : List String :=
  ((split s).foldl (normalStep (s.startsWith "/")) []).reverse

/-- The slashes that a path in normal form starts with: exactly two stay two. -/
def leading (s : String) : String :=
  if !s.startsWith "/" then ""
  else if s.startsWith "//" && !s.startsWith "///" then "//"
  else "/"

/-- The path without `.`, repeated slashes and, as far as possible, without `..`. -/
def normalize (s : String) : String :=
  if s.isEmpty then "."
  else
    let r := leading s ++ String.intercalate "/" (normalPieces s)
    if r.isEmpty then "." else r

def absolute (workingDir s : String) : String :=
  normalize (if s.startsWith "/" then s else join workingDir s)

def baseName (s : String) : String :=
  (split s).getLastD ""

/-- The part before the last slash, without the slashes at its end unless it is all slashes. -/
def dirName (s : String) : String :=
  let head := String.intercalate "/" ((split s).dropLast) ++ (if s.toList.contains '/' then "/" else "")
  let trimmed := String.ofList (head.toList.reverse.dropWhile (· == '/')).reverse
  if trimmed.isEmpty then head else trimmed

def commonLength : List String → List String → Nat
  | a :: as, b :: bs => if a = b then commonLength as bs + 1 else 0
  | _, _ => 0

def relative (workingDir target start : String) : String :=
  let nonEmpty (s : String) := (split s).filter fun p => p != ""
  let origin := nonEmpty (absolute workingDir start)
  let goal := nonEmpty (absolute workingDir target)
  let common := commonLength origin goal
  let way := List.replicate (origin.length - common) ".." ++ goal.drop common
  if way.isEmpty then "." else String.intercalate "/" way

/-- The place of the dot before the extension, if the last piece has one after a character that is no
dot. -/
def extension (s : String) : String :=
  let base := (baseName s).toList
  let body := base.dropWhile (· == '.')
  if body.contains '.' then "." ++ String.ofList (body.reverse.takeWhile (· != '.')).reverse else ""

end Handset.Path
