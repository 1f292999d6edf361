import Handset.Number.Decimal
import Handset.Value

/-!
# Writing JSON

The JSON text of a value, on one line, with a blank after every comma and colon. Only ASCII
characters are written: all others are escaped by their UTF-16 units. The infinities and the number
that is none have names of their own. A byte string has no JSON form and is written as `null`.
-/
namespace Handset.Json

def unitEscape (unit : Nat) : List Char :=
  ['\\', 'u', Nat.digitChar (unit / 4096 % 16), Nat.digitChar (unit / 256 % 16),
    Nat.digitChar (unit / 16 % 16), Nat.digitChar (unit % 16)]

def escape (c : Char) : List Char :=
  if c = '"' then ['\\', '"']
  else if c = '\\' then ['\\', '\\']
  else if c = '\n' then ['\\', 'n']
  else if c = '\r' then ['\\', 'r']
  else if c = '\t' then ['\\', 't']
  else if c.toNat = 0x08 then ['\\', 'b']
  else if c.toNat = 0x0C then ['\\', 'f']
  else if 0x20 ≤ c.toNat ∧ c.toNat ≤ 0x7E then [c]
  else if c.toNat < 0x10000 then unitEscape c.toNat
  else unitEscape (0xD800 + (c.toNat - 0x10000) / 1024) ++
    unitEscape (0xDC00 + (c.toNat - 0x10000) % 1024)

def quoted (s : String) : List Char :=
  '"' :: s.toList.flatMap escape ++ ['"']

/-- A double: its shortest text, or the name of an infinity. -/
def doubleText (d : Double) : String :=
  if d.isNaN then "NaN"
  else if d.isInfinite then (if d.negative then "-Infinity" else "Infinity")
  else d.text

mutual

def chars : Value → List Char
  | .none => ['n', 'u', 'l', 'l']
  | .bool true => ['t', 'r', 'u', 'e']
  | .bool false => ['f', 'a', 'l', 's', 'e']
  | .int i => (toString i).toList
  | .double d => (doubleText d).toList
  | .text s => quoted s
  | .bytes _ => ['n', 'u', 'l', 'l']
  | .list [] => ['[', ']']
  | .list (v :: rest) => '[' :: chars v ++ itemChars rest
  | .object [] => ['\x7b', '\x7d']
  | .object ((k, v) :: rest) => '\x7b' :: quoted k ++ [':', ' '] ++ chars v ++ fieldChars rest

def itemChars : List Value → List Char
  | [] => [']']
  | v :: rest => ',' :: ' ' :: chars v ++ itemChars rest

def fieldChars : List (String × Value) → List Char
  | [] => ['\x7d']
  | (k, v) :: rest => ',' :: ' ' :: quoted k ++ [':', ' '] ++ chars v ++ fieldChars rest

end

def print (v : Value) : String :=
  String.ofList (chars v)

end Handset.Json
