import Handset.Number.Reading
import Handset.Table
import Handset.Value

/-!
# Reading JSON

A value from its JSON text. Of two fields with one name the later gives the value and the earlier the
place. The names of the infinities and of the number that is none are read as well; control
characters inside a text are refused. Half of a surrogate pair on its own reads as U+FFFD.
-/
namespace Handset.Json

def isBlank (c : Char) : Bool :=
  c == ' ' || c == '\t' || c == '\n' || c == '\r'

def skip (cs : List Char) : List Char :=
  cs.dropWhile isBlank

def hexValue? (c : Char) : Option Nat :=
  if '0' ≤ c ∧ c ≤ '9' then some (c.toNat - 0x30)
  else if 'a' ≤ c ∧ c ≤ 'f' then some (c.toNat - 0x57)
  else if 'A' ≤ c ∧ c ≤ 'F' then some (c.toNat - 0x37)
  else none

def unit? (a b c d : Char) : Option Nat := do
  pure (((← hexValue? a) * 16 + (← hexValue? b)) * 256 + (← hexValue? c) * 16 + (← hexValue? d))

def unescape? (c : Char) : Option Char :=
  if c = '"' ∨ c = '\\' ∨ c = '/' then some c
  else if c = 'b' then some (Char.ofNat 0x08)
  else if c = 'f' then some (Char.ofNat 0x0C)
  else if c = 'n' then some '\n'
  else if c = 'r' then some '\r'
  else if c = 't' then some '\t'
  else none

def isHigh (unit : Nat) : Bool :=
  0xD800 ≤ unit && unit < 0xDC00

def isLow (unit : Nat) : Bool :=
  0xDC00 ≤ unit && unit < 0xE000

def ofUnit (unit : Nat) : Char :=
  if isHigh unit || isLow unit then Char.ofNat 0xFFFD else Char.ofNat unit

def ofPair (high low : Nat) : Char :=
  Char.ofNat (0x10000 + (high - 0xD800) * 1024 + (low - 0xDC00))

/-- The characters of a text after its opening quote, and the rest after its closing quote. -/
def textChars : List Char → Option (List Char × List Char)
  | [] => none
  | '"' :: rest => some ([], rest)
  | '\\' :: 'u' :: a :: b :: c :: d :: '\\' :: 'u' :: e :: f :: g :: h :: rest =>
    match unit? a b c d with
    | none => none
    | some high =>
      match if isHigh high then (unit? e f g h).filter isLow else none with
      | some low => (textChars rest).map fun r => (ofPair high low :: r.1, r.2)
      | none =>
        (textChars ('\\' :: 'u' :: e :: f :: g :: h :: rest)).map fun r => (ofUnit high :: r.1, r.2)
  | '\\' :: 'u' :: a :: b :: c :: d :: rest =>
    match unit? a b c d with
    | none => none
    | some unit => (textChars rest).map fun r => (ofUnit unit :: r.1, r.2)
  | '\\' :: c :: rest =>
    match unescape? c with
    | none => none
    | some c => (textChars rest).map fun r => (c :: r.1, r.2)
  | c :: rest =>
    if c.toNat < 0x20 then none else (textChars rest).map fun r => (c :: r.1, r.2)

def textOf? (cs : List Char) : Option (String × List Char) :=
  (textChars cs).map fun r => (String.ofList r.1, r.2)

/-- The digits of a whole number: a zero alone, or digits that do not start with zero. -/
def wholeDigits : List Char → Option (List Char × List Char)
  | '0' :: rest => some (['0'], rest)
  | cs =>
    let digits := cs.takeWhile Char.isDigit
    if digits.isEmpty then none else some (digits, cs.dropWhile Char.isDigit)

def fraction : List Char → List Char × List Char
  | '.' :: rest =>
    let digits := rest.takeWhile Char.isDigit
    if digits.isEmpty then ([], '.' :: rest) else ('.' :: digits, rest.dropWhile Char.isDigit)
  | cs => ([], cs)

def exponent : List Char → List Char × List Char
  | mark :: rest =>
    if mark = 'e' ∨ mark = 'E' then
      let sign := match rest with
        | '+' :: _ => ['+']
        | '-' :: _ => ['-']
        | _ => []
      let after := rest.drop sign.length
      let digits := after.takeWhile Char.isDigit
      if digits.isEmpty then ([], mark :: rest)
      else (mark :: sign ++ digits, after.dropWhile Char.isDigit)
    else ([], mark :: rest)
  | [] => ([], [])

def splitMinus : List Char → Bool × List Char
  | '-' :: rest => (true, rest)
  | cs => (false, cs)

/-- A number. With a fraction or an exponent it is a double. -/
def number? (cs : List Char) : Option (Value × List Char) :=
  let (minus, body) := splitMinus cs
  match wholeDigits body with
  | none => none
  | some (digits, rest) =>
    let (places, rest) := fraction rest
    let (power, rest) := exponent rest
    if places.isEmpty && power.isEmpty then
      if Number.maxDigits < digits.length then none
      else
        let n : Int := Number.ofDigits digits
        some (.int (if minus then -n else n), rest)
    else
      (Number.readUnsigned? minus (digits ++ places ++ power)).map fun d => (.double d, rest)

def after? (word : String) (cs : List Char) : Option (List Char) :=
  if word.toList.isPrefixOf cs then some (cs.drop word.length) else none

def named? (cs : List Char) : Option (Value × List Char) :=
  let found (word : String) (v : Value) := (after? word cs).map fun rest => (v, rest)
  found "null" .none <|> found "true" (.bool true) <|> found "false" (.bool false)
    <|> found "NaN" (.double Double.nan) <|> found "Infinity" (.double (Double.infinity false))
    <|> found "-Infinity" (.double (Double.infinity true))

def deepest : Nat := 985

def need {α : Type} (part : Option α) : Except Fault α :=
  match part with
  | some a => .ok a
  | none => .error .badDocument

mutual

/-- A value and the rest after it. It has at most `left` parts, and lists and objects in it stand at
most `depth` deep inside each other. -/
def value : (left depth : Nat) → List Char → Except Fault (Value × List Char)
  | 0, _, _ => .error .badDocument
  | left + 1, depth, cs =>
    match cs with
    | '"' :: rest => (need (textOf? rest)).map fun r => (.text r.1, r.2)
    | '[' :: rest =>
      match depth, skip rest with
      | 0, _ => .error .nestedTooDeeply
      | _ + 1, ']' :: rest => .ok (.list [], rest)
      | depth + 1, rest => (items left depth rest).map fun r => (.list r.1, r.2)
    | '\x7b' :: rest =>
      match depth, skip rest with
      | 0, _ => .error .nestedTooDeeply
      | _ + 1, '\x7d' :: rest => .ok (.object [], rest)
      | depth + 1, rest => (fields left depth [] rest).map fun r => (.object r.1, r.2)
    | cs => need (named? cs <|> number? cs)

def items : (left depth : Nat) → List Char → Except Fault (List Value × List Char)
  | 0, _, _ => .error .badDocument
  | left + 1, depth, cs => do
    let (v, rest) ← value left depth cs
    match skip rest with
    | ']' :: rest => pure ([v], rest)
    | ',' :: rest =>
      let (vs, rest) ← items left depth (skip rest)
      pure (v :: vs, rest)
    | _ => throw .badDocument

/-- The fields of an object up to its closing brace, put into those read before. -/
def fields : (left depth : Nat) → Table String Value → List Char →
    Except Fault (List (String × Value) × List Char)
  | 0, _, _, _ => .error .badDocument
  | left + 1, depth, before, cs => do
    match cs with
    | '"' :: rest =>
      let (key, rest) ← need (textOf? rest)
      match skip rest with
      | ':' :: rest =>
        let (v, rest) ← value left depth (skip rest)
        let read := before.put key v
        match skip rest with
        | '\x7d' :: rest => pure (read, rest)
        | ',' :: rest => fields left depth read (skip rest)
        | _ => throw .badDocument
      | _ => throw .badDocument
    | _ => throw .badDocument

end

def parse (s : String) : Except Fault Value := do
  let cs := s.toList
  let (v, rest) ← value (cs.length + 1) deepest (skip cs)
  if (skip rest).isEmpty then pure v else throw .badDocument

end Handset.Json
