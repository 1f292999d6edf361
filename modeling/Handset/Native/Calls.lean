import Handset.Graphics.Compositor
import Handset.Machine.Calls
import Handset.Native.ClassLoader
import Handset.Native.InheritedMembers

/-!
# Native calls

Calls that leave the bytecode for library classes. A member that is no method, or that the class does
not have, is not called. A method that is not static is called on a new instance, unless the instance
counts as false.
-/
namespace Handset.Native

structure LibraryClass where
  members : Table String LibraryMember := []
  badInit : Bool := false
  falsy : Bool := false
deriving Inhabited

structure Library where
  log : Log := #[]
  classes : Table String LibraryClass := []
deriving Inhabited

instance : Journal Library where
  log := (·.log)
  setLog l log := { l with log }

abbrev Calling := Step Library

namespace LibraryMember

/-- The answer of a method: its name, the class if it is called on an instance, and the arguments. -/
def answer (m : LibraryMember) (name : String) (instance? : Option String) (args : List Value) :
    Except Fault Value :=
  match m.arity with
  | some n => if n.same (.int args.length) then .ok result else .error .kindMismatch
  | none => .ok result
where
  result : Value := .list (.text name :: (instance?.map Value.text).toList ++ args)

end LibraryMember

namespace LibraryClass

/-- Calls a member of the class: makes an instance where one is needed. -/
def invoke (c : LibraryClass) (className name : String) (m : LibraryMember) (args : List Value) :
    Except Fault Value :=
  if m.kind = .static then m.answer name none args
  else if c.badInit || m.kind = .failing then .error .componentFailed
  else
    m.answer name (if c.falsy then none else some (ClassLoader.simpleName className)) args

def invokeInherited (c : LibraryClass) (className name : String) (args : List Value) :
    Except Fault Value :=
  if c.badInit then .error .componentFailed
  else
    let operands := args.map Operand.value
    InheritedMember.call (ClassLoader.simpleName className) name
      (if c.falsy then operands else .fresh :: operands)

/-- Calls the class itself, which makes an instance of it. -/
def construct (c : LibraryClass) (name : String) (args : List Value) : Except Fault Value :=
  if c.badInit then .error .componentFailed
  else InheritedMember.call name "__call__" (args.map Operand.value)

end LibraryClass

/-- How a member of a module answers that has the mark of a static one: a function, or a class with such a
member. -/
def LibraryModule.static? (offers : Loaded → LibraryClass) (m : LibraryModule) (name : String) :
    Option (List Value → Except Fault Value) :=
  match m.members.find? name with
  | some member => if member.kind = .static then some (member.answer name none) else none
  | none =>
    let c := offers (.ofClass name)
    if m.classes.contains name && c.members.has "__isstatic__" then some (c.construct name) else none

namespace Calling

open Step

variable {σ : Type} [Journal σ]

def missing (className name : String) : Step σ Value := do
  report .error s!"找不到方法: {className}.{name}"
  pure .none

def callOf (c : LibraryClass) (className name : String) (args : Value) : Step σ Value :=
  let failing (step : List Value → Except Fault Value) : Step σ Value :=
    attempt "调用方法失败" .none (lift (args.walk >>= step))
  match c.members.find? name with
  | some m => if m.kind = .value then missing className name else failing (c.invoke className name m)
  | none =>
    if InheritedMember.names.contains name then failing (c.invokeInherited className name)
    else missing className name

/-- Handles a native call: looks for the class and uses what is found. -/
def handle {κ : Type} (className name : String) (look : Step σ (Option κ)) (use : κ → Step σ Value) :
    Step σ Value := do
  report .info s!"调用本地方法: {className}.{name}"
  match ← look with
  | none =>
    report .error s!"找不到类: {className}"
    pure .none
  | some found => use found

def look (className : Value) : Calling (Option LibraryClass) := do
  match ← lift className.key with
  | .text s => return (← get).classes.find? s
  | _ => return none

def call (className name args : Value) : Calling Value := do
  let shownClass ← lift className.written
  let shownName ← lift name.written
  handle shownClass shownName (look className) fun c =>
    match name with
    | .text s => callOf c shownClass s args
    | _ => throw .kindMismatch

end Calling

namespace Loading

open Step

/-- Calls a method of what was loaded. A module has members that can be called, but it makes no instance to
call them on, so only those that are static answer. -/
def callOn (offers : Loaded → LibraryClass) (className name : String) (args : Value) :
    Loaded → Loading Value
  | .ofModule path => do
    let m := ((← get).kept.find? path).getD {}
    match ClassLoader.member? m name with
    | some (some (.ofClass _)) =>
      attempt "调用方法失败" .none (lift (match m.static? offers name with
        | some answer => args.walk >>= answer
        | none => .error .kindMismatch))
    | _ => Calling.missing className name
  | found => Calling.callOf (offers found) className name args

/-- Handles a native call with a loader; `offers` says what the classes of its archive have. -/
def call (offers : Loaded → LibraryClass) (className name : String) (args : Value) : Loading Value :=
  Calling.handle className name (load className) (callOn offers className name args)

end Loading

/-- The runtime of a handset: its machine, its compositor and the contexts its renderer still has. -/
structure AndroidRuntime where
  log : Log := #[]
  machine : Machine := {}
  compositor : Graphics.Compositor := {}
  library : Library := {}
  contexts : List Value := []
  takesProxy : Bool := true
  proxies : Nat := 0
deriving Inhabited

instance : Journal AndroidRuntime where
  log := (·.log)
  setLog r log := { r with log }

abbrev Hosting := Step AndroidRuntime

inductive NativeResult where
  | surface (s : Graphics.Surface)
  | value (v : Value)
deriving Inhabited

namespace Hosting

open Step

def createSurfaceName : String := "android/view/SurfaceHolder.createSurface"

def createContextName : String := "android/opengl/GLSurfaceView.eglCreateContext"

def onMachine {α : Type} (act : Act α) : Hosting α :=
  within AndroidRuntime.machine (fun r machine => { r with machine }) act

def onCompositor {α : Type} (step : Graphics.Composing α) : Hosting α :=
  within AndroidRuntime.compositor (fun r compositor => { r with compositor }) step

def register : Hosting Unit := do
  let r ← get
  if !r.takesProxy then throw (.noMember "DalvikVM" "register_native_method_proxy")
  set { r with proxies := r.proxies + 1 }
  onMachine (Act.registerNative (.text createSurfaceName))
  onMachine (Act.registerNative (.text createContextName))

def callProxy (className name args : Value) : Hosting Value := do
  if (← get).proxies = 0 then throw .itemOutOfRange
  within AndroidRuntime.library (fun r library => { r with library }) (Calling.call className name args)

def createSurface (args : List Value) : Hosting NativeResult := do
  match args with
  | width :: height :: name :: _ =>
    return .surface (← onCompositor (Graphics.Composing.create name width height))
  | _ => throw .nothingToPop

def createContext : Hosting NativeResult := do
  match (← get).contexts with
  | c :: rest =>
    modify fun r => { r with contexts := rest }
    pure (.value c)
  | [] => throw .nothingToPop

def callNative (name : Value) (args : List Value) : Hosting NativeResult := do
  let key ← lift name.key
  if !(← get).machine.natives.has key then throw .missingKey
  if key = .text createSurfaceName then createSurface args
  else if key = .text createContextName then createContext
  else throw .missingKey

end Hosting

end Handset.Native
