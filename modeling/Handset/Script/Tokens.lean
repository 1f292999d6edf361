import Handset.Script.Token
import Handset.Text.Printable

/-!
# Scripts as tokens

A script is read line by line. How far a line is to the right says to which block it belongs, except
inside brackets and on lines that hold nothing but a comment. Reading stops at the first thing that is
no token.
-/
namespace Handset.Script

/-- Where a line starts: counted with tabs to every eighth place, and with tabs as one place. -/
structure Margin where
  wide : Nat := 0
  narrow : Nat := 0
deriving DecidableEq, Inhabited

namespace Margin

def add (m : Margin) (c : Char) : Margin :=
  if c == ' ' then ⟨m.wide + 1, m.narrow + 1⟩
  else if c == '\t' then ⟨(m.wide / 8 + 1) * 8, m.narrow + 1⟩
  else {}

def isBlank (c : Char) : Bool :=
  c == ' ' || c == '\t' || c == '\x0c'

def deepest : Nat := 100

/-- The margins after one more line, and the tokens that tell the difference. A line is at the margin
of the line before, further to the right, or back at an earlier margin; both ways to count have to
agree on that. -/
def next (m : Margin) (outer : List Margin) : List Margin × List Token :=
  let current := outer.headD {}
  if m.wide = current.wide then
    (outer, if m.narrow = current.narrow then [] else [.broken .mixedIndentation false])
  else if current.wide < m.wide then
    if deepest ≤ outer.length then (outer, [.broken .badIndentation false])
    else if m.narrow ≤ current.narrow then (outer, [.broken .mixedIndentation false])
    else (m :: outer, [.indent])
  else
    let left := outer.dropWhile fun o => m.wide < o.wide
    let base := left.headD {}
    if m.wide ≠ base.wide then (left, [.broken .badIndentation false])
    else if m.narrow ≠ base.narrow then (left, [.broken .mixedIndentation false])
    else (left, List.replicate (outer.length - left.length) .dedent)

end Margin

def opening? : String → Option String
  | ")" => some "("
  | "]" => some "["
  | "\x7d" => some "\x7b"
  | _ => none

def mostBrackets : Nat := 200

/-- The brackets that are open after a token, if it can stand there. -/
def bracketsAfter (brackets : List String) : Token → Option (List String)
  | .mark m =>
    if m = "(" ∨ m = "[" ∨ m = "\x7b" then
      if mostBrackets ≤ brackets.length then none else some (m :: brackets)
    else match opening? m with
      | some o => if brackets.head? = some o then some brackets.tail else none
      | none => some brackets
  | _ => some brackets

/-- Reads tokens. `margins` are those of the blocks that are open, the innermost first. -/
def tokensFrom : (fuel : Nat) → (atStart : Bool) → List Margin → (brackets : List String) →
    List Char → Array Token → Array Token
  | 0, _, _, _, _, found => found.push (.broken .badProgram false)
  | fuel + 1, true, margins, brackets, cs, found =>
    let rest := cs.dropWhile Margin.isBlank
    let margin := (cs.takeWhile Margin.isBlank).foldl Margin.add {}
    match rest with
    | [] =>
      if brackets.isEmpty then
        (found ++ Array.replicate (margins.length - 1) Token.dedent).push .finish
      else found.push (.broken .badProgram false)
    | '\n' :: rest => tokensFrom fuel true margins brackets rest found
    | '#' :: rest => tokensFrom fuel true margins brackets (rest.dropWhile (· != '\n')) found
    | rest =>
      if brackets.isEmpty then
        let (margins, change) := margin.next margins
        let found := found ++ change.toArray
        match change with
        | [.broken _ _] => found
        | _ => tokensFrom fuel false margins brackets rest found
      else tokensFrom fuel false margins brackets rest found
  | fuel + 1, false, margins, brackets, cs, found =>
    match cs.dropWhile Margin.isBlank with
    | [] => found.push (.broken .badProgram false)
    | '#' :: rest => tokensFrom fuel false margins brackets (rest.dropWhile (· != '\n')) found
    | '\n' :: rest =>
      tokensFrom fuel true margins brackets rest (if brackets.isEmpty then found.push .newline else found)
    | ['\\', '\n'] => found.push (.broken .badProgram false)
    | '\\' :: '\n' :: rest => tokensFrom fuel false margins brackets rest found
    | '\\' :: _ => found.push (.broken .badProgram false)
    | c :: rest =>
      if !Text.Character.isShown c && c.toNat < 0x80 then found.push (.broken .badProgram true)
      else
        let (token, rest) := Token.first (c :: rest)
        match token, bracketsAfter brackets token with
        | .broken fault isLoud, _ => found.push (.broken fault isLoud)
        | _, none => found.push (.broken .badProgram true)
        | token, some brackets => tokensFrom fuel false margins brackets rest (found.push token)

def lines : List Char → List Char
  | '\r' :: '\n' :: rest => '\n' :: lines rest
  | '\r' :: rest => '\n' :: lines rest
  | [] => []
  | [c] => if c == '\n' then [c] else [c, '\n']
  | c :: rest => c :: lines rest

def tokens (text : String) : Array Token :=
  let cs := lines text.toList
  tokensFrom (2 * cs.length + 2) true [{}] [] cs #[]

end Handset.Script
