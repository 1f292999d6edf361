import Handset.Fault
import Handset.Table
import Handset.Text.LetterCase

/-!
# Settings documents

A document has named sections of keys and values, and default entries that every section inherits.
Keys are kept in lower case. The text form has a bracketed header for each section and a line for each
key; further lines of a value are indented.
-/
namespace Handset.Settings

open Text.Character (isBlank trimBlanks)

abbrev Entries := Table String String

structure Document where
  defaults : Entries := []
  sections : Table String Entries := []
deriving DecidableEq, Inhabited

def defaultName : String := "DEFAULT"

namespace Document

def hasSection (d : Document) (name : String) : Bool :=
  Table.has d.sections name

/-- The raw value of a key in a section, its own or inherited. -/
def raw? (d : Document) (name key : String) : Option String :=
  match Table.find? d.sections name with
  | none => none
  | some entries => (Table.find? entries key).or (Table.find? d.defaults key)

def set (d : Document) (name key value : String) : Document :=
  match Table.find? d.sections name with
  | none => d
  | some entries => { d with sections := Table.put d.sections name (Table.put entries key value) }

/-- All keys of a section: the inherited ones first, then its own. -/
def entriesOf (d : Document) (name : String) : Entries :=
  ((Table.find? d.sections name).getD []).foldl (fun t (k, v) => Table.put t k v) d.defaults

def entryText (e : String × String) : String :=
  let value := String.join (e.2.toList.map fun c => if c == '\n' then "\n\t" else String.ofList [c])
  e.1 ++ " = " ++ value ++ "\n"

def sectionText (name : String) (entries : Entries) : String :=
  "[" ++ name ++ "]\n" ++ String.join (entries.map entryText) ++ "\n"

def render (d : Document) : String :=
  (if d.defaults.isEmpty then "" else sectionText defaultName d.defaults)
    ++ String.join (d.sections.map fun (name, entries) => sectionText name entries)

end Document

/-- The lines of a text; all three common line ends count, and the last line needs none. -/
def lines : List Char → List (List Char)
  | [] => []
  | '\n' :: rest => [] :: lines rest
  | '\r' :: '\n' :: rest => [] :: lines rest
  | '\r' :: rest => [] :: lines rest
  | c :: rest =>
    match lines rest with
    | [] => [[c]]
    | line :: more => (c :: line) :: more

/-- Where the reading of a document stands. Values are kept as their lines, last first. -/
structure Reader where
  defaults : Table String (List (List Char)) := []
  sections : Table String (Table String (List (List Char))) := []
  current : Option String := none
  /-- the key whose value may go on -/
  key : Option String := none
  indent : Nat := 0
  faulty : Bool := false
deriving Inhabited

namespace Reader

def keysOf (r : Reader) (name : String) : Table String (List (List Char)) :=
  if name = defaultName then r.defaults else (Table.find? r.sections name).getD []

def setKeys (r : Reader) (name : String) (keys : Table String (List (List Char))) : Reader :=
  if name = defaultName then { r with defaults := keys }
  else { r with sections := Table.put r.sections name keys }

def continueValue (r : Reader) (line : List Char) : Reader :=
  match r.current, r.key with
  | some name, some key =>
    let keys := r.keysOf name
    match Table.find? keys key with
    | some value => r.setKeys name (Table.put keys key (line :: value))
    | none => r
  | _, _ => r

/-- Can a value go on? A key without a name has no further lines. -/
def goesOn (r : Reader) : Bool :=
  match r.current, r.key with
  | some _, some key => key != ""
  | _, _ => false

/-- The name in a header: what stands between the first bracket and the last. -/
def header? (line : List Char) : Option String :=
  match line with
  | '[' :: rest =>
    match rest.reverse.dropWhile (· != ']') with
    | ']' :: name => if name.isEmpty then none else some (String.ofList name.reverse)
    | _ => none
  | _ => none

def entry? (line : List Char) : Option (List Char × List Char) :=
  let delimiter (c : Char) : Bool := c == '=' || c == ':'
  match line.dropWhile (!delimiter ·) with
  | _ :: value => some (line.takeWhile (!delimiter ·), value)
  | [] => none

def openSection (r : Reader) (name : String) : Except Fault Reader :=
  if name = defaultName then .ok { r with current := some name, key := none }
  else if Table.has r.sections name then .error .duplicateSection
  else .ok { r with sections := Table.put r.sections name [], current := some name, key := none }

def readEntry (r : Reader) (name : String) (line : List Char) : Except Fault Reader :=
  match entry? line with
  | none => .ok { r with faulty := true }
  | some (left, right) =>
    let trimmed := String.ofList (left.reverse.dropWhile isBlank).reverse
    let key := Text.LetterCase.lower trimmed
    let keys := r.keysOf name
    if Table.has keys key then .error .duplicateKey
    else
      let r := r.setKeys name (Table.put keys key [trimBlanks isBlank right])
      .ok { r with key := some key, faulty := r.faulty || trimmed.isEmpty }

/-- Reads a line. A comment is skipped; a blank line and a line that is indented further than the
line of its key belong to the value. -/
def readLine (r : Reader) (line : List Char) : Except Fault Reader :=
  let value := trimBlanks isBlank line
  match value with
  | [] => .ok (if r.goesOn then r.continueValue [] else r)
  | first :: _ =>
    if first = '#' ∨ first = ';' then .ok r
    else
      let indent := (line.takeWhile isBlank).length
      if r.goesOn && r.indent < indent then .ok (r.continueValue value)
      else
        let r := { r with indent }
        match header? value with
        | some name => r.openSection name
        | none => match r.current with
          | none => .error .noSectionHeader
          | some name => r.readEntry name value

def joined (value : List (List Char)) : String :=
  let text := (value.reverse.intersperse ['\n']).flatten
  String.ofList (text.reverse.dropWhile isBlank).reverse

def finish (r : Reader) : Except Fault Document :=
  if r.faulty then .error .unreadableLine
  else
    let close (keys : Table String (List (List Char))) : Entries :=
      keys.map fun (k, v) => (k, joined v)
    .ok { defaults := close r.defaults
          sections := r.sections.map fun (name, keys) => (name, close keys) }

end Reader

/-- Reads a document. An unreadable line is reported only after the last line has been read. -/
def Document.parse (text : String) : Except Fault Document := do
  let r ← (lines text.toList).foldlM Reader.readLine {}
  r.finish

end Handset.Settings
