import Handset.Fault
import Handset.Text.Identifier

/-!
# Tokens of scripts

The words, numbers, texts and marks that a script consists of, each read from the front of a list of
characters.
-/
namespace Handset.Script

inductive Token where
  | name (spelling : String)
  | keyword (spelling : String)
  | number
  | quoted (isBytes : Bool)
  | mark (spelling : String)
  | newline
  /-- a line that is further to the right than the one before -/
  | indent
  | dedent
  | finish
  /-- something that is no token; some faults are heard even if the script is refused before -/
  | broken (fault : Fault) (isLoud : Bool)
deriving DecidableEq, Inhabited

namespace Token

/-- May a word go on with this character, right or wrong? -/
def isWordPart (c : Char) : Bool :=
  c.isAlphanum || c == '_' || 0x80 ≤ c.toNat

def ofWord (cs : List Char) : Token :=
  let spelling := String.ofList cs
  if Text.Identifier.keywords.contains spelling then .keyword spelling
  else match Text.Identifier.name? spelling with
    | some spelt => .name spelt
    | none => .broken .badProgram true

def misfit : Token := .mark ""

/-! ## Numbers -/

/-- What follows digits that have single underscores between them. -/
def afterDigits? (isDigit : Char → Bool) : List Char → Option (List Char)
  | [] => some []
  | ['_'] => none
  | '_' :: c :: rest => if isDigit c then afterDigits? isDigit rest else none
  | c :: rest => if isDigit c then afterDigits? isDigit rest else some (c :: rest)

/-- The words that may follow a number without a blank between, by what comes after their first
letter. -/
def followers : List (Char × List Char) :=
  [('a', "nd".toList), ('e', "lse".toList), ('f', "or".toList), ('o', "r".toList), ('n', "ot".toList)]

def isFollower : List Char → Bool
  | 'i' :: c :: _ => c == 'f' || c == 'n' || c == 's'
  | c :: rest => followers.any fun (first, others) =>
      first == c && others.isPrefixOf rest && !((rest.drop others.length).head?.any isWordPart)
  | [] => false

/-- The characters after a number, which must not go on like a word. -/
def numberEnd? (cs : List Char) : Option (List Char) :=
  if cs.head?.any isWordPart && !isFollower cs then none else some cs

def afterExponent? (cs : List Char) : Option (List Char) :=
  match cs with
  | c :: _ => if c == 'j' || c == 'J' then numberEnd? (cs.drop 1) else numberEnd? cs
  | [] => some []

def afterFraction? (cs : List Char) : Option (List Char) :=
  match cs with
  | c :: sign :: d :: rest =>
    if c != 'e' && c != 'E' then afterExponent? cs
    else if sign == '+' || sign == '-' then
      if d.isDigit then (afterDigits? Char.isDigit rest).bind afterExponent? else none
    else if sign.isDigit then (afterDigits? Char.isDigit (d :: rest)).bind afterExponent?
    else numberEnd? cs
  | [c, d] =>
    if c != 'e' && c != 'E' then afterExponent? cs
    else if d.isDigit then some [] else numberEnd? cs
  | _ => afterExponent? cs

def afterPoint? (cs : List Char) : Option (List Char) :=
  match cs with
  | c :: rest =>
    if c.isDigit then (afterDigits? Char.isDigit rest).bind afterFraction? else afterFraction? cs
  | [] => some []

/-- The characters after a number in base ten that starts here with a digit. A whole number does not
start with a zero, unless it is zero. -/
def afterDecimal? (cs : List Char) : Option (List Char) := do
  let rest ← afterDigits? Char.isDigit (cs.drop 1)
  match rest with
  | '.' :: rest => afterPoint? rest
  | c :: _ =>
    if c == 'e' || c == 'E' || c == 'j' || c == 'J' then
      let stop ← afterFraction? rest
      if stop.length = rest.length then whole rest else some stop
    else whole rest
  | [] => whole rest
where
  /-- the characters after a whole number -/
  whole (rest : List Char) : Option (List Char) :=
    let digits := (cs.take (cs.length - rest.length)).filter (· != '_')
    if digits.head? == some '0' && digits.any (· != '0') then none else numberEnd? rest

def isDigitOf (letter c : Char) : Bool :=
  match letter.toLower with
  | 'x' => c.isDigit || ('a' ≤ c.toLower && c.toLower ≤ 'f')
  | 'o' => '0' ≤ c && c ≤ '7'
  | _ => c == '0' || c == '1'

def afterNumber? (cs : List Char) : Option (List Char) :=
  match cs with
  | '0' :: letter :: rest =>
    if ['x', 'o', 'b'].contains letter.toLower then
      let digits := if rest.head? == some '_' then rest.drop 1 else rest
      if digits.head?.any (isDigitOf letter) then
        (afterDigits? (isDigitOf letter) (digits.drop 1)).bind numberEnd?
      else none
    else afterDecimal? cs
  | cs => afterDecimal? cs

def mostDigits : Nat := 4300

/-- The number that is written with these characters. A whole number must not have too many digits. -/
def numberToken (cs : List Char) : Token :=
  let digits := cs.filter (· != '_')
  if digits.all Char.isDigit && mostDigits < digits.length then misfit else .number

/-! ## Texts -/

def quoteLetters : List String := ["", "b", "u", "r", "f", "br", "rb", "fr", "rf"]

def untilQuote (quote : Char) (long : Bool) : List Char → List Char → Option (List Char × List Char)
  | _, [] => none
  | _, ['\\'] => none
  | body, '\\' :: c :: rest => untilQuote quote long (c :: '\\' :: body) rest
  | body, c :: rest =>
    if c == quote then
      if !long then some (body.reverse, rest)
      else if rest.take 2 == [quote, quote] then some (body.reverse, rest.drop 2)
      else untilQuote quote long (c :: body) rest
    else if c == '\n' && !long then none
    else untilQuote quote long (c :: body) rest

/-- How many hexadecimal digits an escape needs. -/
def escapeWidth (isBytes : Bool) : Char → Nat
  | 'x' => 2
  | 'u' => if isBytes then 0 else 4
  | 'U' => if isBytes then 0 else 8
  | _ => 0

def escapesComplete (isBytes : Bool) : List Char → Bool
  | '\\' :: c :: rest =>
    let width := escapeWidth isBytes c
    let digits := (rest.take width).filter (isDigitOf 'x')
    digits.length = width && escapesComplete isBytes rest
  | _ :: rest => escapesComplete isBytes rest
  | [] => true

/-- The text whose quote comes first, after the letters before it; and what follows. -/
def quotedToken (letters : List Char) (cs : List Char) : Token × List Char :=
  let quote := cs.headD ' '
  let long := cs.take 3 == [quote, quote, quote]
  let isBytes := letters.any fun c => c == 'b' || c == 'B'
  let isRaw := letters.any fun c => c == 'r' || c == 'R'
  match untilQuote quote long [] (cs.drop (if long then 3 else 1)) with
  | none => (.broken .badProgram true, [])
  | some (body, rest) =>
    let fits := !isBytes || body.all (·.toNat < 0x80)
    (if fits && (isRaw || escapesComplete isBytes body) then .quoted isBytes else misfit, rest)

/-! ## Marks -/

def longMarks : List String :=
  ["**=", "//=", ">>=", "<<=", "...", "->", ":=", "==", "!=", "<=", ">=", "**", "//", "<<", ">>",
    "+=", "-=", "*=", "/=", "%=", "&=", "|=", "^=", "@=", "<>"]

def markToken (cs : List Char) : Token × List Char :=
  match longMarks.find? fun m => m.toList.isPrefixOf cs with
  | some m => (.mark m, cs.drop m.length)
  | none => (.mark (String.ofList (cs.take 1)), cs.drop 1)

def first (cs : List Char) : Token × List Char :=
  let c := cs.headD ' '
  if c.isDigit || (c == '.' && (cs.drop 1).head?.any Char.isDigit) then
    let after := if c == '.' then afterPoint? (cs.drop 1) else afterNumber? cs
    match after with
    | some rest => (numberToken (cs.take (cs.length - rest.length)), rest)
    | none => (.broken .badProgram true, [])
  else if c == '"' || c == '\'' then quotedToken [] cs
  else if isWordPart c then
    let word := cs.takeWhile isWordPart
    let rest := cs.dropWhile isWordPart
    let opens := rest.head? == some '"' || rest.head? == some '\''
    if opens && quoteLetters.contains (String.ofList word).toLower then quotedToken word rest
    else (ofWord word, rest)
  else markToken cs

end Token

end Handset.Script
