import Handset.Graphics.Surface
import Handset.Step
import Handset.Table
import Handset.Value.Key
import Handset.Value.Text

/-!
# The compositor

The compositor owns surfaces, finds them by name and shows one of them on the display. A name that is
given again stands for the new surface, while the display keeps showing the old one. What was shown
is the surface itself, so that its later changes show as well.
-/
namespace Handset.Graphics

/-- Surfaces with their names, the one to show and those shown. Surfaces are numbered as they are
made. -/
structure Compositor where
  log : Log := #[]
  surfaces : Array Surface := #[]
  names : Table Key (Value × Nat) := []
  display : Option Nat := none
  shown : Array Nat := #[]
deriving Inhabited

instance : Journal Compositor where
  log := (·.log)
  setLog c log := { c with log }

abbrev Composing := Step Compositor

namespace Compositor

def surface? (c : Compositor) (name : Key) : Option Surface :=
  (c.names.find? name).bind fun (_, number) => c.surfaces[number]?

def sortedNames (c : Compositor) : Except Fault (List Value) :=
  Value.sorted (c.names.values.map (·.1))

def lastShown? (c : Compositor) : Option Surface :=
  c.shown.back?.bind (c.surfaces[·]?)

end Compositor

namespace Composing

open Step

def create (name width height : Value) : Composing Surface := do
  let made ← lift (Surface.make width height (.text PixelFormat.rgba.name))
  let key ← lift name.key
  modify fun c =>
    let shown := ((c.names.find? key).map (·.1)).getD name
    { c with surfaces := c.surfaces.push made, names := c.names.put key (shown, c.surfaces.size) }
  let shown ← lift name.written
  let w ← lift width.written
  let h ← lift height.written
  report .info s!"创建Surface: {shown} ({w}x{h})"
  pure made

def find (name : Value) : Composing Nat := do
  match (← get).names.find? (← lift name.key) with
  | some (_, number) => pure number
  | none => throw .missingKey

def surface (name : Value) : Composing Surface := do
  let number ← find name
  match (← get).surfaces[number]? with
  | some s => pure s
  | none => throw .missingKey

def clear (name : Value) (color : Option Value) : Composing Unit := do
  let number ← find name
  let components ← color.mapM fun c => lift c.walk
  let cleared ← lift ((← surface name).clear components)
  modify fun c => { c with surfaces := c.surfaces.setIfInBounds number cleared }

def setDisplay (name : Value) : Composing Unit := do
  match (← get).names.find? (← lift name.key) with
  | some (_, number) =>
    modify fun c => { c with display := some number }
    report .info ("设置显示Surface: " ++ (← lift name.written))
  | none => report .error ("Surface不存在: " ++ (← lift name.written))

def composite : Composing Unit := do
  match (← get).display with
  | some number => modify fun c => { c with shown := c.shown.push number }
  | none => report .warning "没有设置显示Surface"

end Composing

end Handset.Graphics
