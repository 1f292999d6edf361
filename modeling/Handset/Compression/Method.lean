import Handset.Compression.BlockSorting
import Handset.Compression.Deflate
import Handset.Compression.RangeCoding

/-!
# Methods of compression

The ways in which an archive packs its files, by their numbers.
-/
namespace Handset.Compression

inductive Method where
  | stored
  | deflated
  | blockSorted
  | rangeCoded
deriving DecidableEq, Inhabited

namespace Method

def ofNumber? : Nat → Option Method
  | 0 => some stored
  | 8 => some deflated
  | 12 => some blockSorted
  | 14 => some rangeCoded
  | _ => none

def piece : Nat := 1 <<< 16

/-- Expands a packed file, of which `size` bytes are asked for. Deflated streams are expanded piece by
piece, and no further than asked for. -/
def expand (m : Method) (packed : Bytes) (size : Nat) : Except Fault Expansion :=
  match m with
  | stored => .ok { output := packed, ended := false }
  | deflated => Deflate.expand packed (piece * max 1 ((size + piece - 1) / piece))
  | blockSorted => BlockSorting.expand packed
  | rangeCoded => RangeCoding.expand packed

end Method

end Handset.Compression
