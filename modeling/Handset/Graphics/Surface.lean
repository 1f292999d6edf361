import Handset.Value.Order

/-!
# Surfaces

A surface is a rectangle whose pixels are all alike, since it is only ever filled as a whole. Its bytes
are those of the pixels, row by row. Colours are given by components: one number holds all of them in
its bytes, lowest first; three or four numbers are clipped to a byte each.
-/
namespace Handset.Graphics

structure PixelFormat where
  name : String
  blank : List UInt8
deriving DecidableEq, Inhabited

namespace PixelFormat

def rgba : PixelFormat := ⟨"RGBA", [0, 0, 0, 0]⟩

def formats : List PixelFormat :=
  [rgba, ⟨"RGB", [0, 0, 0]⟩, ⟨"RGBX", [0, 0, 0, 0]⟩, ⟨"RGBa", [0, 0, 0, 0]⟩,
    ⟨"CMYK", [0, 0, 0, 0]⟩, ⟨"YCbCr", [0, 0, 0]⟩, ⟨"HSV", [0, 0, 0]⟩, ⟨"LAB", [0, 0x80, 0x80]⟩]

/-- The formats of one or two components or of a word, which no colour of four fits. -/
def narrowFormats : List String :=
  ["1", "L", "I", "F", "I;16", "I;16L", "I;16B", "I;16N", "LA", "La", "PA", "BGR;15", "BGR;16", "BGR;24"]

def nameOf : Value → Except Fault String
  | .text name => .ok name
  | _ => .error .kindMismatch

def ofName (name : String) : Except Fault PixelFormat :=
  match formats.find? (·.name == name) with
  | some format => .ok format
  | none => if narrowFormats.contains name then .error .kindMismatch else .error .badValue

end PixelFormat

structure Surface where
  width : Nat
  height : Nat
  asked : Value × Value
  format : PixelFormat
  pixel : List UInt8
deriving Inhabited

namespace Surface

def pixels (s : Surface) : Bytes :=
  (List.replicate (s.width * s.height) s.pixel).flatten.toArray

def clip (n : Int) : UInt8 :=
  if n ≤ 0 then 0 else if n < 256 then UInt8.ofNat n.toNat else 255

def component (bits : Nat) (v : Value) : Except Fault Int :=
  match v.int? with
  | none => .error .kindMismatch
  | some n =>
    let half : Int := (1 <<< (bits - 1) : Nat)
    if -half ≤ n ∧ n < half then .ok n else .error .tooLarge

def widest : Nat := (1 <<< 29) - 2

def mostPixels : Nat := 31 <<< 28

/-- A surface of zero pixels; a negative size is refused. The width counts before the format does. -/
def make (width height format : Value) : Except Fault Surface := do
  if ← Value.compare .lt width (.int 0) then throw .badValue
  if ← Value.compare .lt height (.int 0) then throw .badValue
  let name ← PixelFormat.nameOf format
  let w ← component 32 width
  let h ← component 32 height
  if widest < w.toNat then throw .outOfMemory
  let format ← PixelFormat.ofName name
  if mostPixels < w.toNat * h.toNat then throw .outOfMemory
  pure { width := w.toNat, height := h.toNat, asked := (width, height), format, pixel := format.blank }

def byteAt (n : Int) (place : Nat) : UInt8 :=
  UInt8.ofNat ((n >>> (8 * place)) % 256).toNat

def ink : List Value → Except Fault (List UInt8)
  | [v] => do
    let n ← component 64 v
    pure [byteAt n 0, byteAt n 1, byteAt n 2, byteAt n 3]
  | [r, g, b] => do
    pure [clip (← component 64 r), clip (← component 32 g), clip (← component 32 b), 255]
  | [r, g, b, a] => do
    pure [clip (← component 64 r), clip (← component 32 g), clip (← component 32 b),
      clip (← component 32 a)]
  | _ => .error .kindMismatch

/-- Fills a surface with a colour, by default with zero pixels. -/
def clear (s : Surface) (color : Option (List Value)) : Except Fault Surface := do
  let pixel ← match color with
    | none => pure s.format.blank
    | some components => (ink components).map (·.take s.format.blank.length)
  pure { s with pixel }

end Surface

end Handset.Graphics
