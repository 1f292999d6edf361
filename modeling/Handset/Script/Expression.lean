import Handset.Script.Reader

/-!
# Expressions of scripts

Each function takes an expression of a kind and answers what it looks like. How strongly operators bind
makes no difference to what is an expression, except that `not`, conditions and functions without a
name cannot be operands of the others.
-/
namespace Handset.Script

open Reading

def operators : List String :=
  ["|", "^", "&", "<<", ">>", "+", "-", "*", "/", "//", "%", "@", "**"]

def comparisons : List String := ["==", "!=", "<", "<=", ">", ">="]

def signs : List String := ["+", "-", "~"]

def acceptOneOf (marks : List String) : Reading Bool := do
  match ← peek with
  | .mark m =>
    if marks.contains m then
      skip
      pure true
    else pure false
  | _ => pure false

def acceptComparison : Reading Bool := do
  if ← acceptOneOf comparisons then pure true
  else if ← acceptKeyword "in" then pure true
  else if ← acceptKeyword "is" then
    let _ ← acceptKeyword "not"
    pure true
  else if (← seesKeyword "not") && (← second?) = some (.keyword "in") then
    skip
    skip
    pure true
  else pure false

def acceptLink : Reading Bool := do
  if ← acceptKeyword "and" then pure true else acceptKeyword "or"

def quotedTexts (isBytes : Bool) : (fuel : Nat) → Reading Unit
  | 0 => throw .badProgram
  | fuel + 1 => do
    match ← peek with
    | .quoted other =>
      if other ≠ isBytes then throw .badProgram
      skip
      quotedTexts isBytes fuel
    | _ => pure ()

def endsList : Token → Bool
  | .mark m => [")", "]", "\x7d", "=", ":", ";"].contains m
      || (m.length > 1 && m.endsWith "=" && !comparisons.contains m && m ≠ ":=")
  | .keyword w => w = "in" || w = "for" || w = "async"
  | .newline | .finish => true
  | _ => false

/-- The keyword arguments, the arguments and the spreads that were seen in a call. -/
structure Seen where
  named : List String := []
  anyNamed : Bool := false
  anySpread : Bool := false

structure Going where
  taken : List String := []
  /-- must every parameter have a default now? -/
  defaults : Bool := false
  /-- has the mark for parameters by position only been seen? -/
  slashed : Bool := false
  /-- has the mark for parameters by name only been seen? -/
  starred : Bool := false
  /-- is a parameter by name still missing? -/
  waiting : Bool := false

def Going.add (g : Going) (name : String) : Reading Going := do
  if g.taken.contains name ∨ name = constantName then flaw
  pure { g with taken := name :: g.taken, waiting := false }

mutual

def expression : (fuel : Nat) → Reading Shape
  | 0 => throw .badProgram
  | fuel + 1 => do
    if ← acceptKeyword "lambda" then
      let _ ← parameters fuel false {}
      mark ":"
      let before := (← get).scope
      modify fun r => { r with scope := .function false }
      let _ ← later (expression fuel)
      modify fun r => { r with scope := before }
      pure .other
    else
      let shape ← disjunction fuel
      if ← acceptKeyword "if" then
        let _ ← disjunction fuel
        keyword "else"
        let _ ← expression fuel
        pure .other
      else pure shape

def disjunction : (fuel : Nat) → Reading Shape
  | 0 => throw .badProgram
  | fuel + 1 => do
    let shape ← inversion fuel
    if ← acceptLink then
      let _ ← disjunction fuel
      pure .other
    else pure shape

def inversion : (fuel : Nat) → Reading Shape
  | 0 => throw .badProgram
  | fuel + 1 => do
    if ← acceptKeyword "not" then
      let _ ← inversion fuel
      pure .other
    else comparison fuel

def comparison : (fuel : Nat) → Reading Shape
  | 0 => throw .badProgram
  | fuel + 1 => do
    let shape ← operands fuel
    if ← acceptComparison then
      let _ ← comparison fuel
      pure .other
    else pure shape

def operands : (fuel : Nat) → Reading Shape
  | 0 => throw .badProgram
  | fuel + 1 => do
    let shape ← operand fuel
    if ← acceptOneOf operators then
      let _ ← operands fuel
      pure .other
    else pure shape

def operand : (fuel : Nat) → Reading Shape
  | 0 => throw .badProgram
  | fuel + 1 => do
    if ← acceptOneOf signs then
      let _ ← operand fuel
      pure .other
    else if ← acceptKeyword "await" then
      if (← get).scope ≠ .function true then flaw
      let _ ← primary fuel
      pure .other
    else primary fuel

def primary : (fuel : Nat) → Reading Shape
  | 0 => throw .badProgram
  | fuel + 1 => do
    let shape ← atom fuel
    trailers fuel shape

def trailers : (fuel : Nat) → Shape → Reading Shape
  | 0, _ => throw .badProgram
  | fuel + 1, shape => do
    if ← acceptMark "." then
      let _ ← name
      trailers fuel .part
    else if ← acceptMark "(" then
      arguments fuel {}
      trailers fuel .other
    else if ← acceptMark "[" then
      slices fuel
      trailers fuel .part
    else pure shape

def atom : (fuel : Nat) → Reading Shape
  | 0 => throw .badProgram
  | fuel + 1 => do
    match ← peek with
    | .name s =>
      skip
      use s
      pure (.name s)
    | .number =>
      skip
      pure .other
    | .quoted isBytes =>
      quotedTexts isBytes fuel
      pure .other
    | .keyword w =>
      if ["None", "True", "False"].contains w then
        skip
        pure .other
      else refuse
    | .mark "..." =>
      skip
      pure .other
    | .mark "(" =>
      skip
      group fuel
    | .mark "[" =>
      skip
      let (shapes, _) ← sequence fuel "]"
      pure (.items shapes)
    | .mark "\x7b" =>
      skip
      collection fuel
      pure .other
    | _ => refuse

def group : (fuel : Nat) → Reading Shape
  | 0 => throw .badProgram
  | fuel + 1 => do
    if ← seesKeyword "yield" then
      yielding fuel
      mark ")"
      pure .other
    else
      let (shapes, isSequence) ← sequence fuel ")"
      match shapes, isSequence with
      | [.spread _], false => throw .badProgram
      | [shape], false => pure shape
      | shapes, _ => pure (.items shapes)

def yielding : (fuel : Nat) → Reading Unit
  | 0 => throw .badProgram
  | fuel + 1 => do
    keyword "yield"
    if !(← get).scope.isFunction then flaw
    if ← acceptKeyword "from" then
      if (← get).scope = .function true then flaw
      let _ ← expression fuel
    else if !endsList (← peek) then
      let _ ← expressions fuel

/-- Takes expressions up to a closing bracket, or one with the loops that make a sequence of it;
answers whether it is a sequence by its look. -/
def sequence : (fuel : Nat) → (closing : String) → Reading (List Shape × Bool)
  | 0, _ => throw .badProgram
  | fuel + 1, closing => do
    if ← acceptMark closing then return ([], true)
    let shape ← item fuel
    if (← seesKeyword "for") || (← seesKeyword "async") then
      if let .spread _ := shape then throw .badProgram
      loops fuel
      mark closing
      pure ([.other], false)
    else if ← acceptMark "," then
      let (rest, _) ← sequence fuel closing
      pure (shape :: rest, true)
    else
      mark closing
      pure ([shape], false)

def item : (fuel : Nat) → Reading Shape
  | 0 => throw .badProgram
  | fuel + 1 => do
    if ← acceptMark "*" then return .spread (← operands fuel)
    else named fuel

def named : (fuel : Nat) → Reading Shape
  | 0 => throw .badProgram
  | fuel + 1 => do
    match ← peek, ← second? with
    | .name s, some (.mark ":=") =>
      skip
      skip
      let _ ← expression fuel
      learn s
      pure .other
    | _, _ => expression fuel

def loops : (fuel : Nat) → Reading Unit
  | 0 => throw .badProgram
  | fuel + 1 => later do
    if ← acceptKeyword "async" then
      if (← get).scope ≠ .function true then flaw
    keyword "for"
    let known := (← get).known
    assign (← targets fuel)
    keyword "in"
    let _ ← disjunction fuel
    conditions fuel
    if (← seesKeyword "for") || (← seesKeyword "async") then loops fuel
    modify fun r => { r with known }

def conditions : (fuel : Nat) → Reading Unit
  | 0 => throw .badProgram
  | fuel + 1 => do
    if ← acceptKeyword "if" then
      let _ ← disjunction fuel
      conditions fuel

def targets : (fuel : Nat) → Reading Shape
  | 0 => throw .badProgram
  | fuel + 1 => do
    let shape ← target fuel
    if ← seesMark "," then return .items (shape :: (← moreTargets fuel)) else pure shape

def moreTargets : (fuel : Nat) → Reading (List Shape)
  | 0 => throw .badProgram
  | fuel + 1 => do
    if ← acceptMark "," then
      if endsList (← peek) then pure []
      else
        let shape ← target fuel
        return shape :: (← moreTargets fuel)
    else pure []

/-- Takes one thing that is assigned to. Its name need not be known. -/
def target : (fuel : Nat) → Reading Shape
  | 0 => throw .badProgram
  | fuel + 1 => do
    if ← acceptMark "*" then return .spread (← target fuel)
    else later (primary fuel)

def collection : (fuel : Nat) → Reading Unit
  | 0 => throw .badProgram
  | fuel + 1 => do
    if ← acceptMark "\x7d" then pure ()
    else if ← acceptMark "**" then
      let _ ← operands fuel
      if ← acceptMark "," then pairs fuel else mark "\x7d"
    else if ← seesMark "*" then
      let _ ← sequence fuel "\x7d"
    else
      let _ ← named fuel
      if ← acceptMark ":" then
        let _ ← expression fuel
        if (← seesKeyword "for") || (← seesKeyword "async") then
          loops fuel
          mark "\x7d"
        else if ← acceptMark "," then pairs fuel
        else mark "\x7d"
      else if (← seesKeyword "for") || (← seesKeyword "async") then
        loops fuel
        mark "\x7d"
      else if ← acceptMark "," then
        let _ ← sequence fuel "\x7d"
      else mark "\x7d"

def pairs : (fuel : Nat) → Reading Unit
  | 0 => throw .badProgram
  | fuel + 1 => do
    if ← acceptMark "\x7d" then pure ()
    else
      if ← acceptMark "**" then
        let _ ← operands fuel
      else
        let _ ← expression fuel
        mark ":"
        let _ ← expression fuel
      if ← acceptMark "," then pairs fuel else mark "\x7d"

def arguments : (fuel : Nat) → Seen → Reading Unit
  | 0, _ => throw .badProgram
  | fuel + 1, seen => do
    if ← acceptMark ")" then pure ()
    else
      let more (seen : Seen) : Reading Unit := do
        if ← acceptMark "," then arguments fuel seen else mark ")"
      if ← acceptMark "**" then
        let _ ← expression fuel
        more { seen with anyNamed := true, anySpread := true }
      else if ← acceptMark "*" then
        if seen.anySpread then throw .badProgram
        let _ ← expression fuel
        more seen
      else match ← peek, ← second? with
        | .name s, some (.mark "=") =>
          skip
          skip
          if seen.named.contains s ∨ s = constantName then flaw
          let _ ← expression fuel
          more { seen with named := s :: seen.named, anyNamed := true }
        | _, _ =>
          if seen.anyNamed then throw .badProgram
          let _ ← named fuel
          if (← seesKeyword "for") || (← seesKeyword "async") then
            loops fuel
            mark ")"
          else more seen

def slices : (fuel : Nat) → Reading Unit
  | 0 => throw .badProgram
  | fuel + 1 => do
    if ← acceptMark "*" then
      let _ ← operands fuel
    else
      if !(← seesMark ":") then
        let _ ← named fuel
      if ← acceptMark ":" then
        bound fuel
        if ← acceptMark ":" then bound fuel
    if ← acceptMark "," then
      if !(← acceptMark "]") then slices fuel
    else mark "]"

def bound : (fuel : Nat) → Reading Unit
  | 0 => throw .badProgram
  | fuel + 1 => do
    match ← peek with
    | .mark m =>
      if m = ":" ∨ m = "," ∨ m = "]" then pure ()
      else
        let _ ← expression fuel
    | _ =>
      let _ ← expression fuel

def expressions : (fuel : Nat) → Reading Shape
  | 0 => throw .badProgram
  | fuel + 1 => do
    let shape ← spreadOr fuel
    if ← seesMark "," then return .items (shape :: (← moreExpressions fuel)) else pure shape

def spreadOr : (fuel : Nat) → Reading Shape
  | 0 => throw .badProgram
  | fuel + 1 => do
    if ← acceptMark "*" then return .spread (← operands fuel)
    else expression fuel

def moreExpressions : (fuel : Nat) → Reading (List Shape)
  | 0 => throw .badProgram
  | fuel + 1 => do
    if ← acceptMark "," then
      if endsList (← peek) then pure []
      else
        let shape ← spreadOr fuel
        return shape :: (← moreExpressions fuel)
    else pure []

/-- Takes parameters and answers their names. Those of a function with a name may say of what kind they
are. -/
def parameters : (fuel : Nat) → (annotated : Bool) → Going → Reading (List String)
  | 0, _, _ => throw .badProgram
  | fuel + 1, annotated, g => do
    let more (g : Going) : Reading (List String) := do
      if ← acceptMark "," then parameters fuel annotated g
      else if g.waiting then throw .badProgram
      else pure g.taken
    let annotation (spread : Bool) : Reading Unit := do
      if annotated then
        if ← acceptMark ":" then
          if spread then
            let _ ← acceptMark "*"
          let _ ← expression fuel
    match ← peek with
    | .name s =>
      skip
      let g ← g.add s
      annotation false
      if ← acceptMark "=" then
        let _ ← expression fuel
        more { g with defaults := g.defaults || !g.starred }
      else if g.defaults && !g.starred then throw .badProgram
      else more g
    | .mark "/" =>
      if g.slashed ∨ g.starred ∨ g.taken.isEmpty then throw .badProgram
      skip
      more { g with slashed := true }
    | .mark "*" =>
      if g.starred then throw .badProgram
      skip
      match ← peek with
      | .name s =>
        skip
        let g ← g.add s
        annotation true
        more { g with starred := true }
      | _ => more { g with starred := true, waiting := true }
    | .mark "**" =>
      if g.waiting then throw .badProgram
      skip
      let g ← g.add (← name)
      annotation false
      let _ ← acceptMark ","
      pure g.taken
    | _ => if g.waiting then throw .badProgram else pure g.taken

end

end Handset.Script
