import Handset.Script.Expression

/-!
# Statements of scripts

Simple statements share a line; compound ones have a block, which follows on the line or is indented
below it.
-/
namespace Handset.Script

open Reading

/-- Takes expressions that give a value: a spread has to be among others. -/
def values (fuel : Nat) : Reading Unit := do
  if let .spread _ := ← expressions fuel then flaw

def assigned (fuel : Nat) : Reading Shape := do
  if ← seesKeyword "yield" then
    yielding fuel
    pure .other
  else expressions fuel

def changes : List String :=
  ["+=", "-=", "*=", "/=", "//=", "%=", "@=", "&=", "|=", "^=", ">>=", "<<=", "**="]

def assignments (shape : Shape) : (fuel : Nat) → Reading Unit
  | 0 => throw .badProgram
  | fuel + 1 => do
    if ← acceptMark "=" then
      if let .spread _ := shape then flaw
      else if !shape.isTarget true then throw .badProgram
      let next ← assigned fuel
      assignments next fuel
      shape.names.forM learn
    else if let .spread _ := shape then flaw

/-- Takes a statement that starts with an expression. What is assigned to need not be known. -/
def expressionStatement (fuel : Nat) : Reading Unit := do
  if ← seesKeyword "yield" then yielding fuel
  else
    let start ← get
    let shape ← expressions fuel
    match ← peek with
    | .mark m =>
      if m = "=" then
        modify fun r => { r with lacksName := start.lacksName }
        assignments shape fuel
      else if changes.contains m then
        if !shape.isSingle then throw .badProgram
        skip
        let _ ← assigned fuel
        shape.names.forM learn
      else if m = ":" then
        if !shape.isSingle then throw .badProgram
        modify fun r => { r with lacksName := start.lacksName }
        skip
        let _ ← expression fuel
        if ← acceptMark "=" then
          let _ ← assigned fuel
          shape.names.forM learn
      else if let .spread _ := shape then flaw
    | _ => if let .spread _ := shape then flaw

def nameList : (fuel : Nat) → Reading (List String)
  | 0 => throw .badProgram
  | fuel + 1 => do
    let s ← name
    if ← acceptMark "," then return s :: (← nameList fuel) else pure [s]

def dottedName : (fuel : Nat) → Reading (List String)
  | 0 => throw .badProgram
  | fuel + 1 => do
    let s ← name
    if ← acceptMark "." then return s :: (← dottedName fuel) else pure [s]

def renamed (own : String) : Reading Unit := do
  if ← acceptKeyword "as" then learn (← name) else learn own

def modules : (fuel : Nat) → Reading Unit
  | 0 => throw .badProgram
  | fuel + 1 => do
    renamed ((← dottedName fuel).headD "")
    if ← acceptMark "," then modules fuel

def imports (inParentheses : Bool) : (fuel : Nat) → Reading Unit
  | 0 => throw .badProgram
  | fuel + 1 => do
    renamed (← name)
    if ← acceptMark "," then
      if inParentheses && (← seesMark ")") then pure () else imports inParentheses fuel

/-- Takes the dots before the name of a module, and answers whether there are any. -/
def leadingDots : (fuel : Nat) → Reading Bool
  | 0 => throw .badProgram
  | fuel + 1 => do
    if ← acceptOneOf [".", "..."] then
      let _ ← leadingDots fuel
      pure true
    else pure false

def importFrom (fuel : Nat) : Reading Unit := do
  let dots ← leadingDots fuel
  let module ← if dots && (← seesKeyword "import") then pure [] else dottedName fuel
  if module = ["__future__"] && !dots then flaw
  keyword "import"
  if ← acceptMark "*" then
    if (← get).scope ≠ .script then flaw
  else if ← acceptMark "(" then
    imports true fuel
    mark ")"
  else imports false fuel

def keywordStatement (fuel : Nat) (w : String) : Reading Unit := do
  match w with
  | "pass" => skip
  | "break" | "continue" =>
    skip
    if !(← get).inLoop then flaw
  | "return" =>
    skip
    if !(← get).scope.isFunction then flaw
    if !endsList (← peek) then values fuel
  | "raise" =>
    skip
    if !endsList (← peek) then
      let _ ← expression fuel
      if ← acceptKeyword "from" then
        let _ ← expression fuel
  | "global" =>
    skip
    declare (← nameList fuel)
  | "nonlocal" =>
    skip
    declare (← nameList fuel)
    if !((← get).isNested && (← get).scope.isFunction) then flaw
  | "del" =>
    skip
    let shape ← later (expressions fuel)
    if !shape.isTarget false then throw .badProgram
  | "assert" =>
    skip
    let _ ← expression fuel
    if ← acceptMark "," then
      let _ ← expression fuel
  | "import" =>
    skip
    modules fuel
  | "from" =>
    skip
    importFrom fuel
  | _ => expressionStatement fuel

def simpleStatement (fuel : Nat) : Reading Unit := do
  match ← peek with
  | .keyword w => keywordStatement fuel w
  | _ => expressionStatement fuel

def simpleStatements : (fuel : Nat) → Reading Unit
  | 0 => throw .badProgram
  | fuel + 1 => do
    simpleStatement fuel
    if ← acceptMark ";" then
      if !(← accept .newline) then simpleStatements fuel
    else expect .newline

def resources : (fuel : Nat) → Reading Unit
  | 0 => throw .badProgram
  | fuel + 1 => do
    let _ ← expression fuel
    if ← acceptKeyword "as" then assign (← target fuel)
    if ← acceptMark "," then
      if !(← seesMark ")") then resources fuel

/-- Takes the line that starts a statement which tells cases apart. -/
def casesLine (fuel : Nat) : Reading Unit := do
  let _ ← name
  let _ ← expressions fuel
  mark ":"
  expect .newline

/-- Does a statement that tells cases apart start here? -/
def startsCases (fuel : Nat) : Reading Bool := do
  let r ← get
  let starts ← either (do casesLine fuel; pure true) (pure false)
  set r
  pure starts

def compoundKeywords : List String :=
  ["if", "while", "for", "try", "with", "def", "class", "async"]

mutual

def block : (fuel : Nat) → Reading Unit
  | 0 => throw .badProgram
  | fuel + 1 => do
    mark ":"
    if ← accept .newline then
      if ← accept .indent then statements fuel .dedent
      else refuseBlock
    else simpleStatements fuel

def statements : (fuel : Nat) → Token → Reading Unit
  | 0, _ => throw .badProgram
  | fuel + 1, last => do
    statement fuel
    if !(← accept last) then statements fuel last

def statement : (fuel : Nat) → Reading Unit
  | 0 => throw .badProgram
  | fuel + 1 => do
    match ← peek with
    | .keyword w => if compoundKeywords.contains w then compound fuel w else simpleStatements fuel
    | .mark "@" => decorated fuel
    | .name "match" => if ← startsCases fuel then cases fuel else simpleStatements fuel
    | _ => simpleStatements fuel

def compound : (fuel : Nat) → (first : String) → Reading Unit
  | 0, _ => throw .badProgram
  | fuel + 1, first => do
    skip
    match first with
    | "if" => branches fuel
    | "while" =>
      let _ ← named fuel
      repeated (block fuel)
      otherwise fuel
    | "for" => forLoop fuel
    | "try" => guarded fuel
    | "with" => withBlock fuel
    | "def" => function fuel false
    | "class" => classBody fuel
    | _ =>
      let isCoroutine := (← get).scope = .function true
      match ← peek with
      | .keyword "def" =>
        skip
        function fuel true
      | .keyword "for" =>
        skip
        if !isCoroutine then flaw
        forLoop fuel
      | .keyword "with" =>
        skip
        if !isCoroutine then flaw
        withBlock fuel
      | _ => refuse

def branches : (fuel : Nat) → Reading Unit
  | 0 => throw .badProgram
  | fuel + 1 => do
    let _ ← named fuel
    block fuel
    if ← acceptKeyword "elif" then branches fuel else otherwise fuel

def otherwise : (fuel : Nat) → Reading Unit
  | 0 => throw .badProgram
  | fuel + 1 => do
    if ← acceptKeyword "else" then block fuel

def forLoop : (fuel : Nat) → Reading Unit
  | 0 => throw .badProgram
  | fuel + 1 => do
    let shape ← targets fuel
    if !shape.isTarget true then throw .badProgram
    keyword "in"
    values fuel
    shape.names.forM learn
    repeated (block fuel)
    otherwise fuel

def withBlock : (fuel : Nat) → Reading Unit
  | 0 => throw .badProgram
  | fuel + 1 => do
    let plain : Reading Unit := do
      resources fuel
      if !(← seesMark ":") then throw .badProgram
    let grouped : Reading Unit := do
      mark "("
      resources fuel
      mark ")"
    either plain grouped
    block fuel

def guarded : (fuel : Nat) → Reading Unit
  | 0 => throw .badProgram
  | fuel + 1 => do
    block fuel
    if ← acceptKeyword "finally" then block fuel
    else if ← seesKeyword "except" then handlers fuel
    else throw .badProgram

def handlers : (fuel : Nat) → Reading Unit
  | 0 => throw .badProgram
  | fuel + 1 => do
    if ← acceptKeyword "except" then
      let isGroup ← acceptMark "*"
      if (← seesMark ":") && !isGroup then
        block fuel
        if ← seesKeyword "except" then flaw
      else
        let _ ← expression fuel
        if ← acceptKeyword "as" then learn (← name)
        block fuel
      handlers fuel
    else
      otherwise fuel
      if ← acceptKeyword "finally" then block fuel

def function : (fuel : Nat) → (isCoroutine : Bool) → Reading Unit
  | 0, _ => throw .badProgram
  | fuel + 1, isCoroutine => do
    let s ← name
    mark "("
    let names ← parameters fuel true {}
    mark ")"
    if ← acceptMark "->" then
      let _ ← expression fuel
    inScope (.function isCoroutine) names (block fuel)
    learn s

def classBody : (fuel : Nat) → Reading Unit
  | 0 => throw .badProgram
  | fuel + 1 => do
    let s ← name
    if ← acceptMark "(" then arguments fuel {}
    inScope .cls [] (block fuel)
    learn s

def decorated : (fuel : Nat) → Reading Unit
  | 0 => throw .badProgram
  | fuel + 1 => do
    if ← acceptMark "@" then
      let _ ← named fuel
      expect .newline
      decorated fuel
    else match ← peek with
      | .keyword w =>
        if w = "def" ∨ w = "class" ∨ (w = "async" ∧ (← second?) = some (.keyword "def")) then compound fuel w
        else refuse
      | _ => refuse

def cases : (fuel : Nat) → Reading Unit
  | 0 => throw .badProgram
  | fuel + 1 => do
    casesLine fuel
    if ← accept .indent then caseBlocks fuel
    else refuseBlock

def caseBlocks : (fuel : Nat) → Reading Unit
  | 0 => throw .badProgram
  | fuel + 1 => do
    expect (.name "case")
    let _ ← later (expressions fuel)
    if ← acceptKeyword "as" then learn (← name)
    if ← acceptKeyword "if" then
      let _ ← named fuel
    block fuel
    if !(← accept .dedent) then caseBlocks fuel

end

end Handset.Script
