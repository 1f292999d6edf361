import Handset.Number.Decimal
import Handset.Text.Printable
import Handset.Value

/-!
# The text of values

How values appear in messages. A text appears as it is on its own and quoted inside a list or an
object.
-/
namespace Handset.Value

private def hexText (width n : Nat) : String :=
  let digits := Nat.toDigits 16 n
  String.ofList (List.replicate (width - digits.length) '0' ++ digits)

private def codeEscape (n : Nat) : String :=
  if n < 0x100 then "\\x" ++ hexText 2 n
  else if n < 0x10000 then "\\u" ++ hexText 4 n
  else "\\U" ++ hexText 8 n

private def escaped (quote c : Char) : String :=
  if c == '\\' then "\\\\"
  else if c == quote then String.ofList ['\\', c]
  else if c == '\n' then "\\n"
  else if c == '\r' then "\\r"
  else if c == '\t' then "\\t"
  else if Text.Character.isShown c then String.ofList [c]
  else codeEscape c.toNat

/-- A text in quotes: single ones, unless the text has single and no double quotes. -/
def quoted (s : String) : String :=
  let cs := s.toList
  let quote := if cs.contains '\'' && !cs.contains '"' then '"' else '\''
  String.ofList [quote] ++ String.join (cs.map (escaped quote)) ++ String.ofList [quote]

private def quotedBytes (b : Bytes) : String :=
  let cs := b.toList.map fun byte => Char.ofNat byte.toNat
  let quote := if cs.contains '\'' && !cs.contains '"' then '"' else '\''
  let item (c : Char) : String :=
    if c.toNat < 0x7F then escaped quote c else "\\x" ++ hexText 2 c.toNat
  "b" ++ String.ofList [quote] ++ String.join (cs.map item) ++ String.ofList [quote]

mutual

/-- The value as it appears inside a list or an object. -/
def shown : Value → String
  | none => "None"
  | bool b => if b then "True" else "False"
  | int i => toString i
  | double d => d.text
  | text s => quoted s
  | bytes b => quotedBytes b
  | list items => "[" ++ String.intercalate ", " (shownItems items) ++ "]"
  | object fields => "\x7b" ++ String.intercalate ", " (shownFields fields) ++ "\x7d"

def shownItems : List Value → List String
  | [] => []
  | v :: rest => shown v :: shownItems rest

def shownFields : List (String × Value) → List String
  | [] => []
  | (k, v) :: rest => (quoted k ++ ": " ++ shown v) :: shownFields rest

end

/-- The value as it appears inside a list or an object, in ASCII only. -/
def shownPlainly (v : Value) : String :=
  String.join (v.shown.toList.map fun c =>
    if c.toNat < 0x80 then String.ofList [c] else codeEscape c.toNat)

def display : Value → String
  | text s => s
  | v => shown v

def writableDigits : Nat := 4300

mutual

def isWritable : Value → Bool
  | int i => i.natAbs < Nat.pow 10 writableDigits
  | list items => areWritable items
  | object fields => fieldsAreWritable fields
  | _ => true

def areWritable : List Value → Bool
  | [] => true
  | v :: rest => isWritable v && areWritable rest

def fieldsAreWritable : List (String × Value) → Bool
  | [] => true
  | (_, v) :: rest => isWritable v && fieldsAreWritable rest

end

/-- The value as it appears on its own, if it can be written. -/
def written (v : Value) : Except Fault String :=
  if v.isWritable then .ok v.display else .error .badValue

end Handset.Value
