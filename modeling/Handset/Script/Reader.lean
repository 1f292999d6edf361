import Handset.Script.Tokens

/-!
# Reading scripts

A reader goes through the tokens of a script. Besides the tokens it knows where in the script it is,
and notes what is wrong there without being against the grammar: such flaws count only once the whole
script has been read.
-/
namespace Handset.Script

inductive Scope where
  | script
  | cls
  /-- a function, which may be a coroutine -/
  | function (isCoroutine : Bool)
deriving DecidableEq, Inhabited

def Scope.isFunction : Scope → Bool
  | function _ => true
  | _ => false

structure Reader where
  tokens : List Token
  scope : Scope := .script
  isNested : Bool := false
  inLoop : Bool := false
  /-- is this part run later than the script, if ever? -/
  isDeferred : Bool := false
  /-- is anything wrong that is not against the grammar? -/
  isFlawed : Bool := false
  mentioned : List String := []
  /-- the names that are known when the script gets here -/
  known : List String := []
  lacksName : Bool := false
deriving Inhabited

abbrev Reading := StateT Reader (Except Fault)

/-- What an expression looks like, as far as it can be assigned to. -/
inductive Shape where
  | name (spelling : String)
  /-- a part of something -/
  | part
  | items (shapes : List Shape)
  /-- all items of something -/
  | spread (shape : Shape)
  | other
deriving Inhabited

namespace Shape

/-- Can a single value be assigned to it, or be added to what it holds? -/
def isSingle : Shape → Bool
  | name _ | part => true
  | _ => false

mutual

/-- Can it be assigned to, or deleted? Only an assignment takes all items of something. -/
def isTarget (assigned : Bool) : Shape → Bool
  | name _ | part => true
  | items shapes => areTargets assigned shapes
  | _ => false

/-- Can all of them be assigned to, or deleted? At most one of them takes several items. -/
def areTargets (assigned : Bool) : List Shape → Bool
  | [] => true
  | spread s :: rest => assigned && isTarget assigned s && areTargets false rest
  | s :: rest => isTarget assigned s && areTargets assigned rest

end

mutual

def names : Shape → List String
  | name s => [s]
  | items shapes => allNames shapes
  | spread s => names s
  | _ => []

def allNames : List Shape → List String
  | [] => []
  | s :: rest => names s ++ allNames rest

end

end Shape

namespace Reading

/-- The next token; what is no token ends the reading. -/
def peek : Reading Token := do
  match (← get).tokens with
  | .broken fault _ :: _ => throw fault
  | t :: _ => pure t
  | [] => throw .badProgram

def second? : Reading (Option Token) := do
  match (← get).tokens with
  | _ :: t :: _ => pure (some t)
  | _ => pure none

def skip : Reading Unit :=
  modify fun r => { r with tokens := r.tokens.tail }

/-- Finds the next token against the grammar. -/
def refuse {α : Type} : Reading α := do
  match ← peek with
  | .indent | .dedent => throw .badIndentation
  | _ => throw .badProgram

/-- Finds no block where there has to be one, unless the rest of the script is heard to be no script. -/
def refuseBlock {α : Type} : Reading α := do
  match (← get).tokens.getLast? with
  | some (.broken fault true) => throw fault
  | _ => throw .badIndentation

def flaw : Reading Unit :=
  modify fun r => { r with isFlawed := true }

def sees (t : Token) : Reading Bool := do
  return (← peek) = t

def accept (t : Token) : Reading Bool := do
  if ← sees t then
    skip
    pure true
  else pure false

def expect (t : Token) : Reading Unit := do
  if !(← accept t) then refuse

def seesMark (m : String) : Reading Bool := sees (.mark m)

def acceptMark (m : String) : Reading Bool := accept (.mark m)

def mark (m : String) : Reading Unit := expect (.mark m)

def seesKeyword (w : String) : Reading Bool := sees (.keyword w)

def acceptKeyword (w : String) : Reading Bool := accept (.keyword w)

def keyword (w : String) : Reading Unit := expect (.keyword w)

def name : Reading String := do
  match ← peek with
  | .name s =>
    skip
    pure s
  | _ => refuse

/-- The one name that nothing can be given. -/
def constantName : String := "__debug__"

def learn (s : String) : Reading Unit := do
  if s = constantName then flaw
  modify fun r => { r with known := s :: r.known, mentioned := s :: r.mentioned }

def use (s : String) : Reading Unit :=
  modify fun r =>
    { r with lacksName := r.lacksName || (!r.isDeferred && !r.known.contains s)
             mentioned := s :: r.mentioned }

/-- Says of names that they belong to another scope; they must not have been mentioned before. -/
def declare (names : List String) : Reading Unit := do
  let mentioned := (← get).mentioned
  if names.any mentioned.contains then flaw

def later {α : Type} (part : Reading α) : Reading α := do
  let before := (← get).isDeferred
  modify fun r => { r with isDeferred := true }
  let a ← part
  modify fun r => { r with isDeferred := before }
  pure a

def repeated {α : Type} (part : Reading α) : Reading α := do
  let before := (← get).inLoop
  modify fun r => { r with inLoop := true }
  let a ← part
  modify fun r => { r with inLoop := before }
  pure a

/-- Reads a part in a scope of its own, which has these parameters. -/
def inScope {α : Type} (scope : Scope) (parameters : List String) (part : Reading α) : Reading α := do
  let r ← get
  set { r with scope, inLoop := false, isNested := r.isNested || r.scope.isFunction
               mentioned := parameters
               isDeferred := r.isDeferred || scope.isFunction }
  let a ← part
  modify fun s => { s with scope := r.scope, inLoop := r.inLoop, isNested := r.isNested
                           isDeferred := r.isDeferred, known := r.known, mentioned := r.mentioned }
  pure a

def assign (s : Shape) : Reading Unit := do
  if !s.isTarget true then throw .badProgram
  s.names.forM learn

/-- Reads a part one way, or from the same place in another way. -/
def either {α : Type} (first second : Reading α) : Reading α :=
  tryCatch first fun _ => second

end Reading

end Handset.Script
