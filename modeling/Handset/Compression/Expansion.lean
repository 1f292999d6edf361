import Handset.Bytes
import Handset.Fault

/-!
# Expansion

Expanding a compressed stream gives bytes. A stream that is cut short gives the bytes of its complete
part; one that breaks a rule of its format gives none.

Streams of bits are lists of bits, taken from the front. A byte holds eight of them, and the format
says from which end.
-/
namespace Handset.Compression

inductive Halt where
  | starved
  | full
  | malformed
deriving DecidableEq, Inhabited

/-- What came of a stream: the bytes, and whether the end of the stream was reached. -/
structure Expansion where
  output : Bytes
  ended : Bool
deriving DecidableEq, Inhabited

def Expansion.ofOutcome (outcome : Except Halt Unit) (output : Bytes) : Except Fault Expansion :=
  match outcome with
  | .ok _ => .ok { output, ended := true }
  | .error .malformed => .error .badArchive
  | .error _ => .ok { output, ended := false }

/-- The bits of bytes, each byte from its lowest bit on. -/
def lowFirst (b : Bytes) : List Bool :=
  b.toList.flatMap fun byte => (List.range 8).map byte.toNat.testBit

def highFirst (b : Bytes) : List Bool :=
  b.toList.flatMap fun byte => (List.range 8).reverse.map byte.toNat.testBit

def ofLowFirst (bits : List Bool) : Nat :=
  bits.foldr (fun bit value => bit.toNat + 2 * value) 0

def ofHighFirst (bits : List Bool) : Nat :=
  bits.foldl (fun value bit => 2 * value + bit.toNat) 0

structure BitStream where
  bits : List Bool
  output : Bytes := #[]
deriving Inhabited

abbrev Expanding := ExceptT Halt (StateM BitStream)

namespace Expanding

def run (step : Expanding Unit) (bits : List Bool) : Except Fault Expansion :=
  let (outcome, stream) := StateT.run (ExceptT.run step) { bits }
  Expansion.ofOutcome outcome stream.output

def bit : Expanding Bool := do
  match (← get).bits with
  | [] => throw .starved
  | b :: rest =>
    modify fun s => { s with bits := rest }
    pure b

/-- Takes bits, all of them or none. -/
def take (count : Nat) : Expanding (List Bool) := do
  let taken := (← get).bits.take count
  if taken.length < count then throw .starved
  modify fun s => { s with bits := s.bits.drop count }
  pure taken

def low (width : Nat) : Expanding Nat :=
  ofLowFirst <$> take width

def high (width : Nat) : Expanding Nat :=
  ofHighFirst <$> take width

def put (byte : UInt8) : Expanding Unit :=
  modify fun s => { s with output := s.output.push byte }

end Expanding

/-- Bytes with `count` more, each of which repeats the one `distance` bytes before it. -/
def copyBack (distance : Nat) : (count : Nat) → Bytes → Bytes
  | 0, output => output
  | count + 1, output => copyBack distance count (output.push (output.getD (output.size - distance) 0))

end Handset.Compression
