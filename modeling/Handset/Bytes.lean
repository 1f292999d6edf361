/-!
# Byte strings

Byte strings with the two ways the emulator looks into them: a clipped slice, whose bounds may
count from the end, and single bytes and little-endian words at a position.
-/
namespace Handset

abbrev Bytes := Array UInt8

namespace Bytes

/-- A slice bound as a position: negative bounds count from the end, all are clipped to `0 … size`. -/
def bound (size : Nat) (i : Int) : Nat :=
  if i < 0 then (i + size).toNat else min i.toNat size

def slice (b : Bytes) (start stop : Int) : Bytes :=
  b.extract (bound b.size start) (bound b.size stop)

/-- The byte at `i`; positions `-size … -1` count from the end. -/
def at? (b : Bytes) (i : Int) : Option UInt8 :=
  if i < 0 then
    if i + b.size < 0 then none else b[(i + b.size).toNat]?
  else b[i.toNat]?

def ofLittleEndian (b : Bytes) : Nat :=
  b.foldr (fun byte value => byte.toNat + 256 * value) 0

def littleEndian : (width value : Nat) → Bytes
  | 0, _ => #[]
  | width + 1, value => #[UInt8.ofNat (value % 256)] ++ littleEndian width (value / 256)

/-- A base-256 number read as a two's complement number of `width` bytes. -/
def signed (width value : Nat) : Int :=
  if value < 1 <<< (8 * width - 1) then value else (value : Int) - (1 <<< (8 * width) : Nat)

def ascii? (b : Bytes) : Option String :=
  if b.all (·.toNat < 0x80) then some (String.ofList (b.toList.map fun byte => Char.ofNat byte.toNat))
  else none

end Bytes

end Handset
