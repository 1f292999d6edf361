import Handset.Number.Places
import Handset.Value.Order
import Handset.Value.Text

/-!
# Place holders

A text or byte string with place holders is filled in from one argument. A place holder starts with a
percent sign and ends with a conversion letter; between them may stand a key in parentheses, flags, a
width and, after a point, a precision, of which each may be a star and is then taken from the argument.
A keyed or indexed argument may be left unused; any other has to be used exactly once.
-/
namespace Handset.Formatting

/-- What is filled in: a text, or a byte string, whose bytes are then the characters below 256. -/
inductive Medium where
  | text
  | bytes
deriving DecidableEq

structure Flags where
  left : Bool := false
  plus : Bool := false
  blank : Bool := false
  alternate : Bool := false
  zero : Bool := false

/-- What is left to read, and the argument, which can be taken once. -/
structure Reading where
  rest : List Char
  argument : Value
  taken : Bool := false
  /-- was a digit of a size read last? -/
  afterDigit : Bool := false

abbrev Filling := StateT Reading (Except Fault)

/-- Does the argument stand for many, of which none has to be used? -/
def standsForMany : Medium → Value → Bool
  | _, .object _ | _, .list _ => true
  | .text, .bytes _ => true
  | _, _ => false

def next : Filling Value := do
  let r ← get
  if r.taken then throw .kindMismatch
  set { r with taken := true }
  pure r.argument

/-- The key up to the closing parenthesis, and what follows; inner parentheses are part of it. -/
def splitKey : (depth : Nat) → List Char → Option (List Char × List Char)
  | _, [] => none
  | depth, c :: rest =>
    if c = ')' then
      match depth with
      | 0 => some ([], rest)
      | depth + 1 => (splitKey depth rest).map fun (key, after) => (c :: key, after)
    else
      (splitKey (if c = '(' then depth + 1 else depth) rest).map fun (key, after) => (c :: key, after)

def part (medium : Medium) (key : String) : Value → Except Fault Value
  | .object fields => match medium, Value.field? fields key with
    | .text, some v => .ok v
    | _, _ => .error .missingKey
  | _ => .error .kindMismatch

def key (medium : Medium) (whole : Value) : Filling Unit := do
  match (← get).rest with
  | '(' :: rest =>
    if !standsForMany medium whole then throw .kindMismatch
    match splitKey 0 rest with
    | none => throw .badValue
    | some (key, rest) =>
      let argument ← liftM (part medium (String.ofList key) whole)
      set ({ rest, argument } : Reading)
  | _ => pure ()

def splitFlags (flags : Flags) : List Char → Flags × List Char
  | '-' :: rest => splitFlags { flags with left := true } rest
  | '+' :: rest => splitFlags { flags with plus := true } rest
  | ' ' :: rest => splitFlags { flags with blank := true } rest
  | '#' :: rest => splitFlags { flags with alternate := true } rest
  | '0' :: rest => splitFlags { flags with zero := true } rest
  | rest => (flags, rest)

/-- Reads a number of at most `limit`, or takes it from the argument; `none` if there is neither. -/
def size (limit : Nat) : Filling (Option Int) := do
  let r ← get
  match r.rest with
  | '*' :: rest =>
    set { r with rest, afterDigit := false }
    match (← next).int? with
    | none => throw .kindMismatch
    | some n =>
      if n < -(limit : Int) - 1 ∨ limit < n then throw .tooLarge
      pure (some n)
  | _ =>
    let digits := r.rest.takeWhile Char.isDigit
    set { r with rest := r.rest.drop digits.length, afterDigit := !digits.isEmpty }
    let n := digits.foldl (fun n c => 10 * n + (c.toNat - 0x30)) 0
    if limit < n then throw .badValue
    pure (if digits.isEmpty then none else some n)

def character : Filling Char := do
  let r ← get
  match r.rest with
  | [] => throw .badValue
  | c :: rest =>
    set { r with rest }
    pure c

def conversion : Filling Char := do
  let c ← character
  if c = 'h' ∨ c = 'l' ∨ c = 'L' then
    modify fun r => { r with afterDigit := false }
    character
  else pure c

/-- What a place holder shows: a sign, a mark of the base and the rest, for numbers only. -/
structure Shown where
  sign : List Char := []
  mark : List Char := []
  body : List Char
  isNumber : Bool := false

def longest : Nat := 1 <<< 28

/-- A place holder filled in to its width: at its right, or with the flags for it at its left or with
zeros between sign and digits. -/
def padded (flags : Flags) (width : Nat) (s : Shown) : Except Fault (List Char) :=
  let sign :=
    if !s.isNumber || !s.sign.isEmpty then s.sign
    else if flags.plus then ['+'] else if flags.blank then [' '] else []
  let start := sign ++ s.mark
  let missing := width - (start.length + s.body.length)
  if longest < missing then .error .outOfMemory
  else if flags.left then .ok (start ++ s.body ++ List.replicate missing ' ')
  else if flags.zero && s.isNumber then .ok (start ++ List.replicate missing '0' ++ s.body)
  else .ok (List.replicate missing ' ' ++ start ++ s.body)

def integer (base : Nat) (mark : List Char) (precision : Option Nat) (i : Int) : Except Fault Shown :=
  let digits := Nat.toDigits base i.natAbs
  let missing := precision.getD 0 - digits.length
  if (1 <<< 31) - 4 < precision.getD 0 then .error .tooLarge
  else if base = 10 ∧ Value.writableDigits < digits.length then .error .badValue
  else if longest < missing then .error .outOfMemory
  else .ok
    { sign := if i < 0 then ['-'] else [], mark
      body := List.replicate missing '0' ++ digits, isNumber := true }

/-- The integer that a value shows as; only a decimal conversion takes doubles. -/
def wholeOf (decimal : Bool) (v : Value) : Except Fault Int :=
  match v.num? with
  | some (.int i) => .ok i
  | some (.double d) =>
    if !decimal then .error .kindMismatch
    else if d.isNaN then .error .badValue
    else if d.isInfinite then .error .tooLarge
    else .ok d.truncate
  | none => .error .kindMismatch

def double (layout : Double.Layout) (flags : Flags) (precision : Nat) (v : Value) : Except Fault Shown :=
  match v.num? with
  | none => .error .kindMismatch
  | some n => do
    let d ← n.toDouble
    let sign := if d.negative && !d.isNaN then ['-'] else []
    if longest < precision then throw .outOfMemory
    let body :=
      if d.isNaN then ['n', 'a', 'n']
      else if d.isInfinite then ['i', 'n', 'f']
      else d.written layout precision flags.alternate
    pure { sign, body, isNumber := true }

def single (medium : Medium) (v : Value) : Except Fault Char :=
  match medium, v with
  | .text, .text s => match s.toList with
    | [c] => .ok c
    | _ => .error .kindMismatch
  | .bytes, .bytes b => match b.toList with
    | [byte] => .ok (Char.ofNat byte.toNat)
    | _ => .error .kindMismatch
  | _, v => match v.int? with
    | none => .error .kindMismatch
    | some i =>
      if i < 0 ∨ (if medium = .text then 0x110000 else 0x100) ≤ i then .error .tooLarge
      else .ok (Char.ofNat i.toNat)

def cut (precision : Option Nat) (cs : List Char) : Shown :=
  { body := match precision with
      | some n => cs.take n
      | none => cs }

/-- The value as a place holder with this conversion shows it. -/
def convert (medium : Medium) (flags : Flags) (precision : Option Nat) (letter : Char) (v : Value) :
    Except Fault Shown := do
  let upper (s : Shown) : Shown :=
    { s with mark := s.mark.map Char.toUpper, body := s.body.map Char.toUpper }
  let mark (c : Char) : List Char := if flags.alternate then ['0', c] else []
  let places := precision.getD 6
  match letter, medium with
  | 's', .text => return cut precision (← v.written).toList
  | 'r', .text => if v.isWritable then pure (cut precision v.shown.toList) else throw .badValue
  | 'a', _ | 'r', .bytes =>
    if v.isWritable then pure (cut precision v.shownPlainly.toList) else throw .badValue
  | 's', .bytes | 'b', .bytes => match v with
    | .bytes b => pure (cut precision (b.toList.map fun byte => Char.ofNat byte.toNat))
    | _ => throw .kindMismatch
  | 'd', _ | 'i', _ | 'u', _ => integer 10 [] precision (← wholeOf true v)
  | 'o', _ => integer 8 (mark 'o') precision (← wholeOf false v)
  | 'x', _ => integer 16 (mark 'x') precision (← wholeOf false v)
  | 'X', _ => upper <$> integer 16 (mark 'x') precision (← wholeOf false v)
  | 'e', _ => double .scientific flags places v
  | 'E', _ => upper <$> double .scientific flags places v
  | 'f', _ => double .fixed flags places v
  | 'F', _ => upper <$> double .fixed flags places v
  | 'g', _ => double .general flags places v
  | 'G', _ => upper <$> double .general flags places v
  | 'c', _ => pure { body := [← single medium v] }
  | _, _ => throw .badValue

def placeHolder (medium : Medium) (whole : Value) : Filling (List Char) := do
  key medium whole
  let r ← get
  let (flags, rest) := splitFlags {} r.rest
  set { r with rest }
  let width ← size ((1 <<< 63) - 1)
  let precision ← match (← get).rest with
    | '.' :: rest => do
      modify fun r => { r with rest }
      pure (some ((← size ((1 <<< 31) - 1)).getD 0).toNat)
    | _ => pure none
  let letter ← conversion
  let v ← next
  -- a byte beyond ASCII is no letter at all, unless it is read together with the digits before it
  if medium = .bytes ∧ 0x80 ≤ letter.toNat ∧ !(← get).afterDigit then throw .tooLarge
  let shown ← liftM (convert medium flags precision letter v)
  let w := width.getD 0
  liftM (padded { flags with left := flags.left || w < 0 } w.natAbs shown)

/-- Fills in all place holders, reading at most so many characters. -/
def fillIn (medium : Medium) (whole : Value) : (steps : Nat) → Filling (List Char)
  | 0 => pure []
  | steps + 1 => do
    let r ← get
    match r.rest with
    | [] =>
      if !r.taken && !standsForMany medium whole then throw .kindMismatch
      pure []
    | '%' :: '%' :: rest =>
      set { r with rest }
      return '%' :: (← fillIn medium whole steps)
    | '%' :: rest =>
      set { r with rest }
      let filled ← placeHolder medium whole
      return filled ++ (← fillIn medium whole steps)
    | c :: rest =>
      set { r with rest }
      return c :: (← fillIn medium whole steps)

def fill (medium : Medium) (format : List Char) (argument : Value) : Except Fault (List Char) :=
  (fillIn medium argument (format.length + 1)).run' { rest := format, argument }

end Handset.Formatting
