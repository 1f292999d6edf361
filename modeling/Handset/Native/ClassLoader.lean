import Handset.Step
import Handset.Table
import Handset.Text.Identifier
import Handset.Value

/-!
# Loading classes

Library classes come in modules, each a file of an archive named after the class. A module that is
loaded is kept; a class of a kept module is answered by the module itself.
-/
namespace Handset.Native

inductive MemberKind where
  /-- an attribute that cannot be called -/
  | value
  | method
  | static
  | failing
deriving DecidableEq, Inhabited

structure LibraryMember where
  kind : MemberKind
  /-- how many arguments the method takes; any number if not given -/
  arity : Option Value := none
deriving Inhabited

/-- What a module file holds: the classes it defines and, after them, its functions and values, as they are
spelt there, or a failure when it is loaded. -/
inductive ModuleFile where
  | defines (classes : List String) (members : Table String LibraryMember := [])
  | broken
deriving Inhabited

structure LibraryModule where
  classes : List String := []
  members : Table String LibraryMember := []
deriving Inhabited

inductive Loaded where
  /-- a class, or anything else that has a name of its own -/
  | ofClass (name : String)
  | ofModule (path : String)
  /-- a value of this kind, which has no name of its own -/
  | ofValue (kind : String)
deriving DecidableEq, Inhabited

structure ClassLoader where
  log : Log := #[]
  files : Table String ModuleFile
  kept : Table String LibraryModule := []
  unpacked : Bool := true
deriving Inhabited

instance : Journal ClassLoader where
  log := (·.log)
  setLog l log := { l with log }

abbrev Loading := Step ClassLoader

namespace ClassLoader

/-- The packages of the platform and the folders of the library they lie in. -/
def place : List String → List String
  | "android" :: "os" :: rest => "android_libs" :: "base" :: rest
  | "android" :: rest => "android_libs" :: rest
  | package => package

def modulePath (className : String) : Except Fault String :=
  let parts := Text.splitAt '.' className
  match place parts.dropLast with
  | [] => .error .itemOutOfRange
  | package => .ok (String.intercalate "." package ++ "." ++ parts.getLastD "")

def simpleName (className : String) : String :=
  (Text.splitAt '.' className).getLastD ""

/-- The class name that a value is; only texts can be taken apart into packages. -/
def className (v : Value) : Except Fault String :=
  match v with
  | .text s => .ok s
  | .bytes _ => .error .kindMismatch
  | v => .error (.noMember v.kindName "split")

/-- The name of something that is defined, in its normal form. One word that is spelt like a name is
kept for a constant. -/
def definedName (spelling : String) : Except Fault String :=
  match Text.Identifier.name? spelling with
  | some name => if name = "__debug__" then .error .badProgram else .ok name
  | none => .error .badProgram

def definedModule (classes : List String) (members : Table String LibraryMember) :
    Except Fault LibraryModule := do
  let classes ← classes.mapM definedName
  let members ← members.mapM fun (spelling, member) => do return (← definedName spelling, member)
  return { classes, members := Table.putAll Prod.fst Prod.snd [] members }

/-- What every module has besides what it defines, with the kind of it. -/
def moduleValues : Table String String :=
  [("__name__", "str"), ("__file__", "str"), ("__cached__", "str"), ("__package__", "str"),
   ("__spec__", "ModuleSpec"), ("__loader__", "SourceFileLoader"), ("__builtins__", "dict"),
   ("__dict__", "dict"), ("__annotations__", "dict")]

def moduleOperations : List String :=
  ["__delattr__", "__dir__", "__eq__", "__format__", "__ge__", "__getattribute__", "__getstate__",
   "__gt__", "__hash__", "__init__", "__init_subclass__", "__le__", "__lt__", "__ne__", "__new__",
   "__reduce__", "__reduce_ex__", "__repr__", "__setattr__", "__sizeof__", "__str__",
   "__subclasshook__"]

/-- What a module has under a name: nothing, or something, which may be `none`. -/
def member? (m : LibraryModule) (name : String) : Option (Option Loaded) :=
  match m.members.find? name with
  | some member => some (some (if member.kind = .value then .ofValue "object" else .ofClass name))
  | none =>
    if m.classes.contains name then some (some (.ofClass name))
    else if name = "__doc__" then some none
    else if name = "__class__" then some (some (.ofClass "module"))
    else if moduleOperations.contains name then some (some (.ofClass name))
    else (moduleValues.find? name).map fun kind => some (.ofValue kind)

end ClassLoader

namespace Loading

open Step

def load (className : String) : Loading (Option Loaded) := do
  let path ← lift (ClassLoader.modulePath className)
  let l ← get
  if l.kept.has path then
    return some (.ofModule path)
  match l.files.find? (path ++ ".py") with
  | none =>
    report .warning s!"未找到类: {className}"
    pure none
  | some file =>
    modify fun l => { l with unpacked := true }
    match file with
    | .broken => throw .componentFailed
    | .defines classes members =>
      let m ← lift (ClassLoader.definedModule classes members)
      modify fun l => { l with kept := l.kept.put path m }
      let name := ClassLoader.simpleName className
      match ClassLoader.member? m name with
      | some found => pure found
      | none =>
        report .warning s!"模块 {path} 中未找到类 {name}"
        pure none

def cleanup : Loading Unit := do
  if (← get).unpacked then
    modify fun l => { l with unpacked := false }
    report .info "清理临时目录"

end Loading

end Handset.Native
