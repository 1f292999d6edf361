import Handset.Text.Compatibility
import Handset.Text.Composition

/-!
# The normal form of names

Two spellings of a name that differ only in how their characters are encoded have one normal form:
every character is replaced by what it stands for, composed characters are taken apart, the marks after
a letter are put in order, and what can be composed is composed again.
-/
namespace Handset.Text.Normalization

open Handset.Text.Composition

def takeApart : (depth : Nat) → Char → List Char
  | 0, c => [c]
  | depth + 1, c =>
    if c.toNat < 0x80 then [c]
    else match Compatibility.meaning? c, letters? c, parts? c with
      | some cs, _, _ => cs
      | none, some cs, _ => cs
      | none, none, some (a, b) => takeApart depth a ++ takeApart depth b
      | none, none, none => [c]

def insertMark (c : Char) : List Char → List Char
  | [] => [c]
  | d :: rest => if markClass c < markClass d then c :: d :: rest else d :: insertMark c rest

/-- The characters with each run of marks in order; `marks` is the run at hand. -/
def arrange : (marks : List Char) → List Char → List Char
  | marks, [] => marks
  | marks, c :: rest =>
    if markClass c = 0 then marks ++ c :: arrange [] rest else arrange (insertMark c marks) rest

/-- Composes a starting character with those after it. `between` holds, last first, the characters that
stay behind it. A mark reaches the start unless one of its own class or a later one stands between, and
any other character only if nothing does. -/
def composeFrom (start : Char) : (between : List Char) → List Char → List Char
  | between, [] => start :: between.reverse
  | between, c :: rest =>
    let k := markClass c
    let open' := match between.head? with
      | none => true
      | some d => markClass d < k && markClass d != 0
    match (if open' then compose? start c else none) with
    | some made => composeFrom made between rest
    | none =>
      if k = 0 then start :: between.reverse ++ composeFrom c [] rest
      else composeFrom start (c :: between) rest
termination_by _ rest => rest.length

def composeAll : List Char → List Char
  | [] => []
  | c :: rest => if markClass c = 0 then composeFrom c [] rest else c :: composeAll rest

def normalize (s : String) : String :=
  if s.toList.all (·.toNat < 0x80) then s
  else String.ofList (composeAll (arrange [] (s.toList.flatMap (takeApart 4))))

end Handset.Text.Normalization
